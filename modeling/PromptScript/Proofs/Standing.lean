import PromptScript.Proofs.Climbing
import PromptScript.Proofs.Printing

/-! # Texts that stand for expressions

A text stands for an expression if it is read as that expression where nothing goes on with it. Between parentheses it may be
an operand: what follows them matters no more than that it goes on with no link and no operator where it should not. -/
namespace PromptScript
namespace Grammar

variable {α : Type} {P : Expr → Prop} {text rest : List Char}

/-- Nothing is passed over where there is no blank. -/
theorem skipWhile_solid {c : Cursor} (solid : ∀ d ∈ c.rest.head?, isSpace d = false) : c.skipWhile isSpace = c := by
  obtain ⟨offset, rest⟩ := c
  cases rest with
  | nil => rfl
  | cons d r =>
    have last : ¬ isSpace d = true := by simp [solid d rfl]
    rw [Cursor.skipWhile_cons, if_neg last]

/-- What an operand ends before. -/
structure Quiet (rest : List Char) : Prop where
  solid : ∀ d ∈ rest.head?, isSpace d = false
  link : linkAt? rest = none
  update : updateAt? rest = none

/-- What an expression without commas ends before. -/
structure Stops (rest : List Char) : Prop extends Quiet rest where
  operator : infixAt? rest = none
  choice : choiceAt rest = false
  assign : assignAt? rest = none

/-- What a whole expression ends before. -/
def Closes (rest : List Char) : Prop := rest = [] ∨ ∃ r, rest = ')' :: r

theorem stops_nil : Stops [] := ⟨⟨by rintro _ ⟨⟩, rfl, rfl⟩, rfl, rfl, rfl⟩

theorem stops_cons {d : Char} (closing : d = ')' ∨ d = ',' ∨ d = ']' ∨ d = '\x7d' ∨ d = ':') (r : List Char) :
    Stops (d :: r) := by
  rcases closing with rfl | rfl | rfl | rfl | rfl <;>
    exact ⟨⟨by rintro _ ⟨⟩; rfl, rfl, rfl⟩, rfl, rfl, rfl⟩

theorem Closes.stops (h : Closes rest) : Stops rest := by
  rcases h with rfl | ⟨r, rfl⟩
  · exact stops_nil
  · exact stops_cons (.inl rfl) r

theorem Closes.apart (h : Closes rest) : ∀ d ∈ rest.head?, isNameChar d = false := by
  rcases h with rfl | ⟨r, rfl⟩
  · rintro _ ⟨⟩
  · rintro _ ⟨⟩
    rfl

theorem Closes.head (h : Closes rest) : rest.head? ≠ some ',' := by
  rcases h with rfl | ⟨r, rfl⟩ <;> exact nofun

section

variable {n : Nat} {e : Expr} {c c' : Cursor}

/-- An operation is a conditional before what is no mark of a choice. -/
theorem gives_readConditional (reads : Gives (readOperation n 0) c e c') (solid : ∀ d ∈ c'.rest.head?, isSpace d = false)
    (ends : choiceAt c'.rest = false) : Gives (readConditional (n + 1)) c e c' := by
  rw [readConditional_succ]
  refine .bind reads (.skipSpaces (skipWhile_solid solid) (.rest ?_))
  rw [ends]
  exact gives_pure.mpr ⟨rfl, rfl⟩

theorem gives_readAssignment (reads : Gives (readConditional n) c e c') (solid : ∀ d ∈ c'.rest.head?, isSpace d = false)
    (ends : assignAt? c'.rest = none) : Gives (readAssignment (n + 1)) c e c' := by
  refine .bind reads (.skipSpaces (skipWhile_solid solid) (.rest ?_))
  rw [ends]
  exact gives_pure.mpr ⟨rfl, rfl⟩

theorem gives_readSequence (reads : Gives (readAssignment n) c e c') (solid : ∀ d ∈ c'.rest.head?, isSpace d = false)
    (ends : c'.rest.head? ≠ some ',') : Gives (readSequence (n + 1)) c e c' := by
  refine .bind reads (.skipSpaces (skipWhile_solid solid) (.current? ?_))
  rw [if_neg ends]
  exact gives_pure.mpr ⟨rfl, rfl⟩

/-- The bound that the text gives is as good as any other. -/
theorem gives_readExpr (reads : Gives (readSequence n) c e c') : Gives readExpr c e c' := by
  obtain ⟨source, on⟩ := c.exists_source
  have settled := (unbounded source).expressions on (max n (boundFor c.rest)) (Nat.le_max_right ..)
  refine .rest ?_
  exact settled.symm.trans ((refuels (Nat.le_max_left ..)).sequence reads)

/-- A text that is read to its end is a source of what is read. -/
theorem parse_of_ended {text : List Char} {k : Nat} (reads : Gives (readSequence n) (.start text) e ⟨k, []⟩) :
    Expr.parse text = .ok e := by
  have whole : Gives readWhole (.start text) e ⟨k, []⟩ := by
    refine .bind (gives_readExpr reads) (.skipSpaces (skipWhile_solid nofun) (.rest ?_))
    exact gives_pure.mpr ⟨rfl, rfl⟩
  unfold Expr.parse
  rw [show readWhole.run (.start text) = .ok (e, _) from whole]

/-- A text of which something is left is refused there. -/
theorem parse_of_unended {text : List Char} (reads : Gives (readSequence n) (.start text) e c')
    (solid : ∀ d ∈ c'.rest.head?, isSpace d = false) (left : c'.rest ≠ []) : Expr.parse text =
      .error (Diagnostic.of text ⟨.syntaxFault "Unexpected token after expression", ⟨c'.offset, c'.offset + 1⟩⟩) := by
  have reads : readExpr.run (.start text) = .ok (e, c') := gives_readExpr reads
  have fails : readWhole.run (.start text) =
      .error ⟨.syntaxFault "Unexpected token after expression", ⟨c'.offset, c'.offset + 1⟩⟩ := by
    show (readExpr.run (.start text) >>= _) = _
    rw [reads]
    show (if (c'.skipWhile isSpace).rest = [] then _ else _ : Reading Expr).run (c'.skipWhile isSpace) = _
    rw [skipWhile_solid solid, if_neg left]
    rfl
  unfold Expr.parse
  rw [fails]

end

/-- A text that is read to its end before what follows it, wherever it stands, as something that has a property. -/
def Rereads (read : Nat → Reading α) (P : α → Prop) (text rest : List Char) : Prop :=
  ∀ k, ∃ n a, P a ∧ Gives (read n) ⟨k, text ++ rest⟩ a ⟨k + Text.byteLength text, rest⟩

/-- A text that starts neither with a blank nor with an operator of its own. -/
structure Plain (text : List Char) : Prop where
  solid : ∀ d ∈ text.head?, isSpace d = false
  update : updateAt? text = none
  unary : unaryAt? text = none

theorem plain_open (r : List Char) : Plain ('(' :: r) := ⟨by rintro _ ⟨⟩; rfl, rfl, rfl⟩

namespace Rereads

theorem unary (h : Rereads readPostfix P text rest) (plain : Plain (text ++ rest)) : Rereads readUnary P text rest := by
  intro k
  obtain ⟨n, e, holds, reads⟩ := h k
  refine ⟨n + 1, e, holds, .skipSpaces (skipWhile_solid plain.solid) ?_⟩
  refine .offset (.rest ?_)
  dsimp only
  rw [plain.update, plain.unary]
  exact reads

theorem operation (h : Rereads readUnary P text rest) (solid : ∀ d ∈ rest.head?, isSpace d = false)
    (ends : infixAt? rest = none) : Rereads (readOperation · 0) P text rest := by
  intro k
  obtain ⟨n, e, holds, reads⟩ := h k
  have last : Gives (readOperators 1 0 e) ⟨k + Text.byteLength text, rest⟩ e ⟨k + Text.byteLength text, rest⟩ := by
    have stops := @gives_readOperators_stop 0 e ⟨k + Text.byteLength text, rest⟩
    rw [skipWhile_solid solid, ends] at stops
    exact stops nofun
  exact ⟨n + 2, e, holds, .bind ((refuels (by omega)).unary reads) ((refuels (by omega)).operators last)⟩

theorem conditional (h : Rereads (readOperation · 0) P text rest) (solid : ∀ d ∈ rest.head?, isSpace d = false)
    (ends : choiceAt rest = false) : Rereads readConditional P text rest := by
  intro k
  obtain ⟨n, e, holds, reads⟩ := h k
  exact ⟨n + 1, e, holds, gives_readConditional reads solid ends⟩

theorem assignment (h : Rereads readConditional P text rest) (solid : ∀ d ∈ rest.head?, isSpace d = false)
    (ends : assignAt? rest = none) : Rereads readAssignment P text rest := by
  intro k
  obtain ⟨n, e, holds, reads⟩ := h k
  exact ⟨n + 1, e, holds, gives_readAssignment reads solid ends⟩

theorem sequence (h : Rereads readAssignment P text rest) (solid : ∀ d ∈ rest.head?, isSpace d = false)
    (ends : rest.head? ≠ some ',') : Rereads readSequence P text rest := by
  intro k
  obtain ⟨n, e, holds, reads⟩ := h k
  exact ⟨n + 1, e, holds, gives_readSequence reads solid ends⟩

theorem next (h : Rereads readUnary P text rest) (stops : Stops rest) : Rereads readAssignment P text rest :=
  ((h.operation stops.solid stops.operator).conditional stops.solid stops.choice).assignment stops.solid stops.assign

/-- An operand that is a whole expression. -/
theorem whole (h : Rereads readUnary P text rest) (closes : Closes rest) : Rereads readSequence P text rest :=
  (h.next closes.stops).sequence closes.stops.solid closes.head

end Rereads

/-! ## Links -/

/-- From a text on, the links after it go on as those of an expression. -/
def Heads (text rest : List Char) (k : Nat) (e : Expr) (optional : Bool) : Prop :=
  ∀ n x c', Gives (readLinks n e.span.start optional e) ⟨k + Text.byteLength text, rest⟩ x c' →
    ∃ m first c₁, Gives (readPrimary m) ⟨k, text ++ rest⟩ first c₁ ∧ Gives (readLinks m first.span.start false first) c₁ x c'

namespace Heads

variable {k : Nat} {e x : Expr} {optional : Bool}

theorem of_primary {n : Nat} (h : Gives (readPrimary n) ⟨k, text ++ rest⟩ e ⟨k + Text.byteLength text, rest⟩) :
    Heads text rest k e false :=
  fun m _ _ links => ⟨n + m, e, _, (refuels (Nat.le_add_right n m)).primary h, (refuels (Nat.le_add_left m n)).links links⟩

/-- One more link. -/
theorem link {more : List Char} {l : LinkStart} {n : Nat} (h : Heads text (more ++ rest) k e optional)
    (solid : ∀ d ∈ (more ++ rest).head?, isSpace d = false) (here : linkAt? (more ++ rest) = some l)
    (reads : Gives (readLink n e.span.start e l) ⟨k + Text.byteLength text, more ++ rest⟩ x
      ⟨k + Text.byteLength (text ++ more), rest⟩) (start : x.span.start = e.span.start) :
    Heads (text ++ more) rest k x (l.optionalAfter optional) := by
  intro m y c' links
  rw [start] at links
  rw [List.append_assoc]
  refine h (n + m + 1) y c' ?_
  rw [readLinks_succ]
  refine .skipSpaces (skipWhile_solid solid) (.rest ?_)
  rw [here]
  refine .bind ((refuels (Nat.le_add_right n m)).link here reads) ?_
  exact (refuels (Nat.le_add_left m n)).links links

/-- The last link. -/
theorem postfixed (h : Heads text rest k e optional) (quiet : Quiet rest) : ∃ n, Gives (readPostfix n) ⟨k, text ++ rest⟩
    (readLinks.finish optional e) ⟨k + Text.byteLength text, rest⟩ := by
  have last : Gives (readLinks 1 e.span.start optional e) ⟨k + Text.byteLength text, rest⟩ (readLinks.finish optional e)
      ⟨k + Text.byteLength text, rest⟩ := by
    rw [readLinks_succ]
    refine .skipSpaces (skipWhile_solid quiet.solid) (.rest ?_)
    rw [quiet.link]
    exact gives_pure.mpr ⟨rfl, rfl⟩
  obtain ⟨m, first, c₁, primary, links⟩ := h 1 _ _ last
  refine ⟨m + 1, ?_⟩
  rw [readPostfix_succ]
  refine .bind primary (.bind links (.rest ?_))
  rw [quiet.update]
  exact gives_pure.mpr ⟨rfl, rfl⟩

end Heads
/-! ## Texts between parentheses -/

theorem gives_expect (d : Char) (k : Nat) : Gives (expect d) ⟨k, d :: rest⟩ () ⟨k + d.utf8Size, rest⟩ := by
  refine .current? ?_
  show Gives (if d = d then _ else _) _ _ _
  rw [if_pos rfl]
  exact gives_skip.mpr rfl

/-- A text that is read as an expression where nothing goes on with it. -/
def Standing (P : Expr → Prop) (text : List Char) : Prop := ∀ rest, Closes rest → Rereads readSequence P text rest

namespace Standing

theorem primary (h : Standing P text) (rest : List Char) : Rereads readPrimary P (Expr.enclosed text) rest := by
  intro k
  obtain ⟨n, e, holds, reads⟩ := h (')' :: rest) (.inr ⟨rest, rfl⟩) (k + 1)
  refine ⟨n + 1, e, holds, ?_⟩
  rw [Expr.enclosed, List.cons_append, List.append_assoc]
  refine .skipSpaces (skipWhile_solid (by rintro _ ⟨⟩; rfl)) ?_
  refine .offset (.rest ?_)
  refine .skip (.bind reads ?_)
  refine .skipSpaces (skipWhile_solid (by rintro _ ⟨⟩; rfl)) ?_
  refine .bind (gives_expect ')' _) (gives_pure.mpr ⟨rfl, ?_⟩)
  rw [Text.byteLength, Text.byteLength_append]
  simp only [Nat.add_assoc]
  rfl

theorem unary (h : Standing P text) (quiet : Quiet rest) : Rereads readUnary P (Expr.enclosed text) rest := by
  refine Rereads.unary (fun k => ?_) (plain_open _)
  obtain ⟨n, e, holds, reads⟩ := h.primary rest k
  obtain ⟨m, reads⟩ := (Heads.of_primary reads).postfixed quiet
  exact ⟨m, e, holds, reads⟩

theorem next (h : Standing P text) (stops : Stops rest) : Rereads readAssignment P (Expr.enclosed text) rest :=
  (h.unary stops.toQuiet).next stops

/-- A key between brackets. -/
theorem computed (h : Standing P text) (rest : List Char) :
    Rereads readComputed P ('[' :: (Expr.enclosed text ++ [']'])) rest := by
  intro k
  have stops : Stops (']' :: rest) := stops_cons (.inr (.inr (.inl rfl))) rest
  obtain ⟨n, e, holds, reads⟩ := (h.next stops).sequence stops.solid nofun (k + 1)
  refine ⟨n + 1, e, holds, ?_⟩
  rw [List.cons_append, List.append_assoc]
  refine .bind (gives_expect '[' k) (.bind reads ?_)
  refine .skipSpaces (skipWhile_solid stops.solid) (.bind (gives_expect ']' _) ?_)
  refine gives_pure.mpr ⟨rfl, ?_⟩
  rw [Text.byteLength, Text.byteLength_append]
  simp only [Nat.add_assoc]
  rfl

end Standing

/-! ## Lists of expressions -/

variable {digits : Float → List Char}

/-- What differs from an expression in its spans alone. -/
def Alike (e a : Expr) : Prop := a.unplaced = e.unplaced

theorem items_alike {e a : Expr} {items es : List Expr} (first : Alike e a)
    (more : Expr.itemsUnplaced es = Expr.itemsUnplaced items) :
    Expr.itemsUnplaced (a :: es) = Expr.itemsUnplaced (e :: items) := by
  rw [Expr.itemsUnplaced, first, more, Expr.itemsUnplaced]

/-- The text of an expression is read as that expression. -/
def Comes (digits : Float → List Char) (e : Expr) : Prop := Standing (Alike e) (e.printed digits false)

theorem stops_moreItems (digits : Float → List Char) (items : List Expr) (stops : Stops rest) :
    Stops (Expr.moreItemsPrinted digits items ++ rest) := by
  cases items with
  | nil => exact stops
  | cons e r => exact stops_cons (.inr (.inl rfl)) _

theorem stops_moreFields (digits : Float → List Char) (fields : List (Key × Expr)) (stops : Stops rest) :
    Stops (Expr.moreFieldsPrinted digits fields ++ rest) := by
  cases fields with
  | nil => exact stops
  | cons field r => exact stops_cons (.inr (.inl rfl)) _

theorem rereads_readMore {items : List Expr} (come : ∀ e ∈ items, Comes digits e) (closes : Closes rest) :
    Rereads readMore (fun es => Expr.itemsUnplaced es = Expr.itemsUnplaced items) (Expr.moreItemsPrinted digits items) rest := by
  induction items with
  | nil =>
    refine fun k => ⟨1, [], rfl, .current? ?_⟩
    show Gives (if rest.head? = some ',' then _ else _) _ _ _
    rw [if_neg closes.head]
    exact gives_pure.mpr ⟨rfl, rfl⟩
  | cons e r ih =>
    intro k
    have stops := stops_moreItems digits r closes.stops
    obtain ⟨n, e', alike, reads⟩ := (come e List.mem_cons_self).next stops (k + 1)
    obtain ⟨m, es, same, later⟩ := ih (fun e there => come e (List.mem_cons_of_mem _ there))
      (k + 1 + Text.byteLength (Expr.enclosed (e.printed digits false)))
    refine ⟨n + m + 1, e' :: es, ?_, ?_⟩
    · exact items_alike alike same
    · rw [Expr.moreItemsPrinted, List.cons_append, List.append_assoc]
      refine .current? (.skip ?_)
      refine .bind ((refuels (Nat.le_add_right n m)).assignment reads) ?_
      refine .skipSpaces (skipWhile_solid stops.solid) ?_
      refine .bind ((refuels (Nat.le_add_left m n)).more later) (gives_pure.mpr ⟨rfl, ?_⟩)
      rw [Text.byteLength, Text.byteLength_append]
      simp only [Nat.add_assoc]
      rfl

theorem gives_separated_comma {close : Char} {message : String} {next : Reading α} {k : Nat} {a : α} {c' : Cursor}
    (h : Gives next ⟨k + 1, rest⟩ a c') : Gives (separated close message next) ⟨k, ',' :: rest⟩ a c' :=
  .current? (.skip h)

theorem gives_separated_close {close : Char} (comma : close ≠ ',') {message : String} {next : Reading α} {k : Nat} {a : α}
    {c' : Cursor} (h : Gives next ⟨k, close :: rest⟩ a c') : Gives (separated close message next) ⟨k, close :: rest⟩ a c' := by
  refine .current? ?_
  show Gives (if close = ',' then _ else if close ≠ close then _ else _) _ _ _
  rw [if_neg comma, if_neg fun apart => apart rfl]
  exact h

/-- Expressions up to a closing character. -/
theorem rereads_readItems {items : List Expr} (come : ∀ e ∈ items, Comes digits e) {close : Char}
    (closing : close = ')' ∨ close = ']') (message : String) (rest : List Char) : Rereads (readItems · close message)
      (fun es => Expr.itemsUnplaced es = Expr.itemsUnplaced items) (Expr.itemsPrinted digits items ++ [close]) rest := by
  have solid : isSpace close = false := by rcases closing with rfl | rfl <;> rfl
  induction items with
  | nil =>
    refine fun k => ⟨1, [], rfl, .skipSpaces (skipWhile_solid (by rintro _ ⟨⟩; exact solid)) ?_⟩
    refine .current? ?_
    show Gives (if some close = some close then _ else _) _ _ _
    rw [if_pos rfl]
    exact .skip (gives_pure.mpr ⟨rfl, rfl⟩)
  | cons e r ih =>
    intro k
    have stops : Stops (Expr.moreItemsPrinted digits r ++ (close :: rest)) :=
      stops_moreItems digits r (stops_cons (closing.imp_right fun h => .inr (.inl h)) rest)
    have apart : ¬ some '(' = some close := by rcases closing with rfl | rfl <;> decide
    have comma : ¬ close = ',' := by rcases closing with rfl | rfl <;> decide
    obtain ⟨n, e', alike, reads⟩ := (come e List.mem_cons_self).next stops k
    -- Up to the character after the first item, the last one is read as the others.
    have start (m : Nat) (es : List Expr) (c' : Cursor)
        (later : Gives (separated close message do return e' :: (← readItems (n + m) close message))
          ⟨k + Text.byteLength (Expr.enclosed (e.printed digits false)), Expr.moreItemsPrinted digits r ++ (close :: rest)⟩ es c') :
        Gives (readItems (n + m + 1) close message) ⟨k, Expr.itemsPrinted digits (e :: r) ++ [close] ++ rest⟩ es c' := by
      refine .skipSpaces (skipWhile_solid (by rintro _ ⟨⟩; rfl)) ?_
      refine .current? ?_
      show Gives (if some '(' = some close then _ else _) _ _ _
      rw [if_neg apart, Expr.itemsPrinted]
      simp only [List.append_assoc]
      refine .bind ((refuels (Nat.le_add_right n m)).assignment reads) ?_
      exact .skipSpaces (skipWhile_solid stops.solid) later
    cases r with
    | nil =>
      obtain ⟨m, es, same, later⟩ := ih nofun (k + Text.byteLength (Expr.enclosed (e.printed digits false)))
      refine ⟨n + m + 1, e' :: es, items_alike alike same, start m _ _ ?_⟩
      refine gives_separated_close comma ?_
      refine .bind ((refuels (Nat.le_add_left m n)).items later) (gives_pure.mpr ⟨rfl, ?_⟩)
      simp only [Expr.itemsPrinted, Expr.moreItemsPrinted, Text.byteLength_append, Text.byteLength, Nat.add_assoc, Nat.add_zero,
        Nat.zero_add]
    | cons e₂ r =>
      obtain ⟨m, es, same, later⟩ := ih (fun e there => come e (List.mem_cons_of_mem _ there))
        (k + Text.byteLength (Expr.enclosed (e.printed digits false)) + 1)
      refine ⟨n + m + 1, e' :: es, items_alike alike same, start m _ _ ?_⟩
      refine gives_separated_comma ?_
      rw [List.append_assoc] at later
      refine .bind ((refuels (Nat.le_add_left m n)).items later) (gives_pure.mpr ⟨rfl, ?_⟩)
      simp only [Expr.itemsPrinted, Expr.moreItemsPrinted, Text.byteLength_append, Text.byteLength, Nat.add_assoc]
      rfl

/-! ## Fields -/

theorem gives_readKey_named (name : String) (k : Nat) : Gives (readKey 1) ⟨k, Expr.quoted name ++ rest⟩ (.named name)
    ⟨k + Text.byteLength (Expr.quoted name), rest⟩ := by
  refine .current? ?_
  exact .bind (gives_readString_quoted name k) (gives_pure.mpr ⟨rfl, rfl⟩)

/-- The expression in a key comes back. -/
def KeyComes (digits : Float → List Char) (key : Key) : Prop := ∀ e, key = .computed e → Comes digits e

theorem rereads_readKey {key : Key} (comes : KeyComes digits key) (rest : List Char) :
    Rereads readKey (fun a => Expr.keyUnplaced a = Expr.keyUnplaced key) (Expr.keyPrinted digits key) rest := by
  intro k
  cases key with
  | named name => exact ⟨1, .named name, rfl, gives_readKey_named name k⟩
  | computed e =>
    have stops : Stops (']' :: rest) := stops_cons (.inr (.inr (.inl rfl))) rest
    obtain ⟨n, a, alike, reads⟩ := (comes e rfl).next stops (k + 1)
    refine ⟨n + 1, .computed a, congrArg Key.computed alike, ?_⟩
    rw [Expr.keyPrinted, List.cons_append, List.append_assoc]
    refine .current? (.skip ?_)
    refine .bind reads (.skipSpaces (skipWhile_solid stops.solid) ?_)
    refine .bind (gives_expect ']' _) (gives_pure.mpr ⟨rfl, ?_⟩)
    simp only [Text.byteLength, Text.byteLength_append, Nat.add_assoc]
    rfl

/-- No key starts with a blank, nor with the brace at the end of the fields. -/
theorem head_keyPrinted (digits : Float → List Char) (key : Key) (rest : List Char) :
    ∃ d r, Expr.keyPrinted digits key ++ rest = d :: r ∧ isSpace d = false ∧ d ≠ '\x7d' := by
  cases key with
  | named name => exact ⟨'"', _, rfl, rfl, by decide⟩
  | computed e => exact ⟨'[', _, rfl, rfl, by decide⟩

theorem fields_alike {key key' : Key} {e a : Expr} {fields later : List (Key × Expr)}
    (named : Expr.keyUnplaced key' = Expr.keyUnplaced key) (first : Alike e a)
    (more : Expr.fieldsUnplaced later = Expr.fieldsUnplaced fields) :
    Expr.fieldsUnplaced ((key', a) :: later) = Expr.fieldsUnplaced ((key, e) :: fields) := by
  rw [Expr.fieldsUnplaced, named, first, more, Expr.fieldsUnplaced]

/-- Fields up to the closing brace. -/
theorem rereads_readFields {fields : List (Key × Expr)} (keys : ∀ field ∈ fields, KeyComes digits field.1)
    (come : ∀ field ∈ fields, Comes digits field.2) (rest : List Char) : Rereads readFields
      (fun fs => Expr.fieldsUnplaced fs = Expr.fieldsUnplaced fields) (Expr.fieldsPrinted digits fields ++ ['\x7d']) rest := by
  induction fields with
  | nil =>
    refine fun k => ⟨1, [], rfl, .skipSpaces (skipWhile_solid (by rintro _ ⟨⟩; rfl)) ?_⟩
    refine .offset (.rest ?_)
    exact .skip (gives_pure.mpr ⟨rfl, rfl⟩)
  | cons field r ih =>
    obtain ⟨key, e⟩ := field
    intro k
    have stops : Stops (Expr.moreFieldsPrinted digits r ++ ('\x7d' :: rest)) :=
      stops_moreFields digits r (stops_cons (.inr (.inr (.inr (.inl rfl)))) rest)
    obtain ⟨i, key', named, readsKey⟩ := rereads_readKey (keys _ List.mem_cons_self)
      (':' :: (Expr.enclosed (e.printed digits false) ++ (Expr.moreFieldsPrinted digits r ++ ('\x7d' :: rest)))) k
    obtain ⟨n, e', alike, reads⟩ := (come _ List.mem_cons_self).next stops (k + Text.byteLength (Expr.keyPrinted digits key) + 1)
    have start (m : Nat) (fs : List (Key × Expr)) (c' : Cursor)
        (later : Gives (separated '\x7d' "Expected ',' or '\x7d' in object literal" do
            return (key', e') :: (← readFields (i + n + m)))
          ⟨k + Text.byteLength (Expr.keyPrinted digits key) + 1 + Text.byteLength (Expr.enclosed (e.printed digits false)),
            Expr.moreFieldsPrinted digits r ++ ('\x7d' :: rest)⟩ fs c') :
        Gives (readFields (i + n + m + 1)) ⟨k, Expr.fieldsPrinted digits ((key, e) :: r) ++ ['\x7d'] ++ rest⟩ fs c' := by
      obtain ⟨d, tail, here, solid, brace⟩ := head_keyPrinted digits key
        (':' :: (Expr.enclosed (e.printed digits false) ++ (Expr.moreFieldsPrinted digits r ++ ('\x7d' :: rest))))
      rw [Expr.fieldsPrinted]
      simp only [List.append_assoc, List.cons_append, List.nil_append]
      rw [readFields_succ]
      refine .skipSpaces (skipWhile_solid (by rw [here]; rintro _ ⟨⟩; exact solid)) ?_
      refine .offset (.rest ?_)
      rw [if_neg (by rw [here]; intro same; exact brace (Option.some.inj same))]
      refine .bind ((refuels (by omega)).key readsKey) (.offset ?_)
      refine .skipSpaces (skipWhile_solid (by rintro _ ⟨⟩; rfl)) ?_
      refine gives_bind.mpr ⟨e', _, ?_, .skipSpaces (skipWhile_solid stops.solid) later⟩
      refine .current? (.skip ?_)
      exact (refuels (by omega)).assignment reads
    have past : k + Text.byteLength (Expr.fieldsPrinted digits ((key, e) :: r) ++ ['\x7d']) =
        k + Text.byteLength (Expr.keyPrinted digits key) + 1 + Text.byteLength (Expr.enclosed (e.printed digits false)) +
          Text.byteLength (Expr.moreFieldsPrinted digits r ++ ['\x7d']) := by
      simp only [Expr.fieldsPrinted, Text.byteLength_append, Text.byteLength, Nat.add_assoc]
      rfl
    rw [past]
    cases r with
    | nil =>
      obtain ⟨m, fs, same, later⟩ := ih (List.forall_mem_nil _) (List.forall_mem_nil _)
        (k + Text.byteLength (Expr.keyPrinted digits key) + 1 + Text.byteLength (Expr.enclosed (e.printed digits false)))
      refine ⟨i + n + m + 1, (key', e') :: fs, fields_alike named alike same, start m _ _ ?_⟩
      refine gives_separated_close (by decide) ?_
      exact .bind ((refuels (by omega)).fields later) (gives_pure.mpr ⟨rfl, rfl⟩)
    | cons field r =>
      obtain ⟨m, fs, same, later⟩ := ih (fun f there => keys f (List.mem_cons_of_mem _ there))
        (fun f there => come f (List.mem_cons_of_mem _ there))
        (k + Text.byteLength (Expr.keyPrinted digits key) + 1 + Text.byteLength (Expr.enclosed (e.printed digits false)) + 1)
      refine ⟨i + n + m + 1, (key', e') :: fs, fields_alike named alike same, start m _ _ ?_⟩
      refine gives_separated_comma ?_
      rw [List.append_assoc] at later
      refine .bind ((refuels (by omega)).fields later) (gives_pure.mpr ⟨rfl, ?_⟩)
      simp only [Expr.fieldsPrinted, Expr.moreFieldsPrinted, Text.byteLength_append, Text.byteLength, Nat.add_assoc]
      rfl

end Grammar
end PromptScript
