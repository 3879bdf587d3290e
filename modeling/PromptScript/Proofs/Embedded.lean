import PromptScript.Proofs.Surroundings

/-! # Expressions in longer texts

What a function of the grammar of expressions reads it reads in surroundings too, with as much fuel or more. With nothing
behind and no bytes before, this is that fuel is no matter once there is enough of it. -/
namespace PromptScript
namespace Grammar

variable {α β γ δ : Type} {w : Surroundings} {whole : Bool}

/-! ## What choices and links start with -/

/-- Whether a text starts with the mark of a choice, which neither `??` nor `?.` has. -/
def choiceAt (text : List Char) : Bool :=
  match text with
  | '?' :: '?' :: _ => false
  | '?' :: '.' :: _ => false
  | '?' :: _ => true
  | _ => false

theorem readConditional_succ (n : Nat) :
    readConditional (n + 1) = (do
      let test ← readOperation n 0
      skipSpaces
      if choiceAt (← rest) then
        skip 1
        let consequent ← readAssignment n
        skipSpaces
        expect ':'
        let alternate ← readAssignment n
        return .conditional (test.span.hull alternate.span) test consequent alternate
      else return test) := by
  refine congrArg (readOperation n 0 >>= ·) (funext fun test => congrArg (skipSpaces >>= ·) (funext fun _ => ?_))
  refine congrArg (rest >>= ·) (funext fun text => ?_)
  unfold choiceAt
  split <;> simp_all

/-- How a link starts: as an optional one, at a point, at a bracket or at a parenthesis. -/
inductive LinkStart where
  | optional
  | member
  | computed
  | call

/-- The start of a link that is not optional, by the next two characters. -/
def plainLinkAt? (text : List Char) : Option LinkStart :=
  match text with
  | '.' :: '.' :: _ => none
  | '.' :: _ => some .member
  | '[' :: _ => some .computed
  | '(' :: _ => some .call
  | _ => none

/-- The start of a link that a text starts with. -/
def linkAt? (text : List Char) : Option LinkStart :=
  if Text.startsWith ['?', '.'] text && !((text.drop 2).head?.any Char.isDigit) then some .optional
  else plainLinkAt? text

/-- How many characters a link has at its start at least. -/
def LinkStart.width : LinkStart → Nat
  | .optional => 2
  | _ => 1

theorem length_of_linkAt? {text : List Char} {l : LinkStart} (h : linkAt? text = some l) : l.width ≤ text.length := by
  unfold linkAt? at h
  split at h
  · next marked =>
    obtain rfl := Option.some.inj h
    have starts := (Bool.and_eq_true _ _ ▸ marked).1
    match text, starts with
    | [], starts => simp [Text.startsWith, Text.dropLead?] at starts
    | [a], starts => simp [Text.startsWith, Text.dropLead?] at starts
    | _ :: _ :: _, _ => exact Nat.le_add_left 2 _
  · unfold plainLinkAt? at h
    split at h <;> cases h <;> exact Nat.le_add_left 1 _

/-- Reads a link that starts so, after an expression that starts at an offset. -/
def readLink (n start : Nat) (e : Expr) : LinkStart → Reading Expr
  | .optional => do
    skip 2
    skipSpaces
    match ← current? with
    | some '(' =>
      let arguments ← readArguments n
      return .call ⟨start, ← offset⟩ e arguments true
    | some '[' =>
      let key ← readComputed n
      return .member ⟨start, ← offset⟩ e (.computed key) true
    | _ =>
      let name ← readName
      return .member ⟨start, ← offset⟩ e (.named name) true
  | .member => do
    skip 1
    skipSpaces
    let name ← readName
    return .member ⟨start, ← offset⟩ e (.named name) false
  | .computed => do
    let key ← readComputed n
    return .member ⟨start, ← offset⟩ e (.computed key) false
  | .call => do
    let arguments ← readArguments n
    return .call ⟨start, ← offset⟩ e arguments false

/-- Whether a link after which an optional one has been met, or that is one. -/
def LinkStart.optionalAfter (optional : Bool) : LinkStart → Bool
  | .optional => true
  | _ => optional

theorem readLinks_succ (n start : Nat) (optional : Bool) (e : Expr) :
    readLinks (n + 1) start optional e = (do
      skipSpaces
      match linkAt? (← rest) with
      | none => return readLinks.finish optional e
      | some l =>
        let e ← readLink n start e l
        readLinks n start (l.optionalAfter optional) e) := by
  refine congrArg (skipSpaces >>= ·) (funext fun _ => congrArg (rest >>= ·) (funext fun text => ?_))
  unfold linkAt?
  split
  · simp only [readLink, bind_assoc]
    refine congrArg (skip 2 >>= ·) (funext fun _ => congrArg (skipSpaces >>= ·) (funext fun _ => ?_))
    refine congrArg (current? >>= ·) (funext fun d => ?_)
    split <;> simp only [bind_assoc, pure_bind] <;> rfl
  · unfold plainLinkAt?
    split <;> simp_all [readLink, LinkStart.optionalAfter]

/-- Two characters tell a choice, and so a link that is not optional. -/
theorem choiceAt_far (a b : Char) (r r' : List Char) : choiceAt (a :: b :: r) = choiceAt (a :: b :: r') := by
  by_cases mark : a = '?'
  · subst mark
    by_cases twice : b = '?'
    · subst twice
      rfl
    · by_cases link : b = '.'
      · subst link
        rfl
      · simp [choiceAt, twice, link]
  · simp [choiceAt, mark]

theorem plainLinkAt?_far (a b : Char) (r r' : List Char) : plainLinkAt? (a :: b :: r) = plainLinkAt? (a :: b :: r') := by
  by_cases dot : a = '.'
  · subst dot
    by_cases twice : b = '.'
    · subst twice
      rfl
    · simp [plainLinkAt?, twice]
  · unfold plainLinkAt?
    split <;> simp_all

namespace Surroundings

theorem choiceAt_append (w : Surroundings) (text : List Char) : choiceAt (text ++ w.behind) = choiceAt text := by
  refine w.ahead_append choiceAt_far (fun a d r blank => ?_) (fun d r blank => ?_) text
  · unfold choiceAt
    rcases isSpace_eq_true blank with rfl | rfl | rfl | rfl | rfl <;> (split <;> simp_all)
  · rcases isSpace_eq_true blank with rfl | rfl | rfl | rfl | rfl <;> rfl

/-- Whether a number starts at a character is told from the next one. -/
theorem numeral_append (w : Surroundings) (d : Char) (text : List Char) :
    (d.isDigit || (d == '.' && (text ++ w.behind).head?.any Char.isDigit)) =
      (d.isDigit || (d == '.' && text.head?.any Char.isDigit)) := by
  cases text with
  | nil =>
    rcases w.behind_eq with empty | ⟨a, r, there, blank⟩
    · rw [empty]
      rfl
    · rw [there]
      exact congrArg (d.isDigit || d == '.' && ·) (isDigit_of_isSpace blank)
  | cons a r => rfl

theorem linkAt?_append (w : Surroundings) (text : List Char) : linkAt? (text ++ w.behind) = linkAt? text := by
  have marked : (Text.startsWith ['?', '.'] (text ++ w.behind) && !(((text ++ w.behind).drop 2).head?.any Char.isDigit)) =
      (Text.startsWith ['?', '.'] text && !((text.drop 2).head?.any Char.isDigit)) := by
    rw [w.startsWith_append (by decide)]
    match text with
    | [] => rfl
    | [a] => simp [Text.startsWith, Text.dropLead?]
    | [a, b] =>
      rcases w.behind_eq with empty | ⟨d, r, there, blank⟩
      · rw [empty]
        rfl
      · rw [there]
        exact congrArg (_ && !·) (isDigit_of_isSpace blank)
    | a :: b :: d :: r => rfl
  unfold linkAt?
  rw [marked]
  split
  · rfl
  · refine w.ahead_append plainLinkAt?_far (fun a d r blank => ?_) (fun d r blank => ?_) text
    · unfold plainLinkAt?
      rcases isSpace_eq_true blank with rfl | rfl | rfl | rfl | rfl <;> (split <;> simp_all)
    · rcases isSpace_eq_true blank with rfl | rfl | rfl | rfl | rfl <;> rfl

end Surroundings

/-- Reads the update operator after an operand, if there is one. -/
def readUpdate (argument : Expr) : Reading Expr := do
  match updateAt? (← rest) with
  | some op =>
    checkUpdateTarget argument
    skip 2
    return .update ⟨argument.span.start, ← offset⟩ op false argument
  | none => return argument

theorem readPostfix_succ (n : Nat) :
    readPostfix (n + 1) = (do
      let first ← readPrimary n
      let argument ← readLinks n first.span.start false first
      readUpdate argument) := rfl

/-- Reads the value of a field, or has the variable of that name for it. -/
def fieldValue (n : Nat) (written : List Char) (span : Span) (key : Key) : Reading Expr := do
  if (← current?) = some ':' then
    skip 1
    readAssignment n
  else
    match key with
    | .named name =>
      if written = name.toList then return .identifier span name
      else failHere "Expected ':' after property key"
    | .computed _ => failHere "Expected ':' after property key"

/-- Reads what is next, after a comma or before a closing character that is still to be read. -/
def separated (close : Char) (message : String) (next : Reading β) : Reading β := do
  match ← current? with
  | none => failEnd
  | some d =>
    if d = ',' then skip 1
    else if d ≠ close then failHere message
    next

theorem readFields_succ (n : Nat) :
    readFields (n + 1) = (do
      skipSpaces
      let start ← offset
      let text ← rest
      if text.head? = some '\x7d' then
        skip 1
        return []
      else
        let key ← readKey n
        let span := Span.mk start (← offset)
        skipSpaces
        let value ← fieldValue n (Text.takeBytes (span.stop - span.start) text) span key
        skipSpaces
        separated '\x7d' "Expected ',' or '\x7d' in object literal" do return (key, value) :: (← readFields n)) := rfl

/-- A target that may be updated may be so wherever it is. -/
theorem checkUpdateTarget_gives {target : Expr} {c c' : Cursor} {u : Unit} (h : Gives (checkUpdateTarget target) c u c') :
    c = c' ∧ ∀ k d, Gives (checkUpdateTarget (target.shifted k)) d () d := by
  unfold checkUpdateTarget at h
  split at h
  · exact ⟨(gives_pure.mp h).2, fun _ _ => gives_pure.mpr ⟨rfl, rfl⟩⟩
  · exact ⟨(gives_pure.mp h).2, fun _ _ => gives_pure.mpr ⟨rfl, rfl⟩⟩
  · exact (not_gives_failAt h).elim

theorem length_of_updateAt? {text : List Char} {op : UpdateOp} (h : updateAt? text = some op) : 2 ≤ text.length := by
  unfold updateAt? at h
  split at h <;> cases h <;> exact Nat.le_add_left 2 _

theorem length_of_startsWithWord {word : String} {text : List Char} (h : startsWithWord word text = true) :
    word.length ≤ text.length := by
  unfold startsWithWord at h
  cases lead : Text.dropLead? word.toList text with
  | none =>
    rw [lead] at h
    cases h
  | some r =>
    rw [Text.dropLead?_eq_some.mp lead, List.length_append, String.length_toList]
    exact Nat.le_add_right ..

theorem length_of_unaryAt? {text : List Char} {symbol : String} {op : UnaryOp} (h : unaryAt? text = some (symbol, op)) :
    symbol.length ≤ text.length := by
  unfold unaryAt? at h
  split at h
  any_goals cases h; exact Nat.le_add_left 1 _
  split at h
  · next starts =>
    cases h
    exact length_of_startsWithWord starts
  · split at h <;> cases h
    next starts => exact length_of_startsWithWord starts

/-! ## Nested readings -/

/-- What fails at first fails. -/
theorem not_gives_first {x : Reading α} {f : α → Reading β} {c : Cursor} (fails : ∀ a c', ¬ Gives x c a c') (b : β) (c' : Cursor) :
    ¬ Gives (x >>= f) c b c' := by
  intro h
  obtain ⟨a, c₁, first, -⟩ := gives_bind.mp h
  exact fails a c₁ first

/-- What fails at the end of a text fails before the blanks at the end of one. -/
theorem not_gives_blanks {f : Unit → Reading α} {c : Cursor} (fails : ∀ c a c', c.rest = [] → ¬ Gives (f ()) c a c')
    (a : α) (c' : Cursor) (empty : c.rest = []) : ¬ Gives (skipSpaces >>= f) c a c' := by
  intro h
  obtain ⟨_, _, skips, h⟩ := gives_bind.mp h
  obtain rfl := gives_skipSpaces.mp skips
  exact fails _ a c' (by rw [Cursor.skipWhile_eq, empty]; rfl) h

/-- Where an expression is read there is something to read. -/
theorem rest_ne_nil_of_placed {source : List Char} {c c' : Cursor} {e : Expr} (on : c.Ahead c')
    (placed : e.Placed source c.offset c'.offset) : c.rest ≠ [] := by
  intro empty
  obtain ⟨read, rest, offset⟩ := on
  obtain ⟨rfl, -⟩ := List.append_eq_nil_iff.mp (rest.symm.trans empty)
  have start := placed.within.start
  have stop := placed.within.stop
  rw [offset] at stop
  exact Nat.not_lt_of_le (Nat.le_trans stop start) placed.within.forward

theorem not_gives_readAssignment {n : Nat} {c c' : Cursor} {e : Expr} (empty : c.rest = []) :
    ¬ Gives (readAssignment n) c e c' := by
  intro h
  obtain ⟨source, on⟩ := c.exists_source
  exact rest_ne_nil_of_placed ((Advances.expressions n).assignment c e c' h) ((places source n).assignment on h) empty

theorem not_gives_readOperation {n least : Nat} {c c' : Cursor} {e : Expr} (empty : c.rest = []) :
    ¬ Gives (readOperation n least) c e c' := by
  intro h
  obtain ⟨source, on⟩ := c.exists_source
  exact rest_ne_nil_of_placed ((Advances.expressions n).operation least c e c' h) ((places source n).operation on h) empty

theorem not_gives_readUnary {n : Nat} {c c' : Cursor} {e : Expr} (empty : c.rest = []) : ¬ Gives (readUnary n) c e c' := by
  intro h
  obtain ⟨source, on⟩ := c.exists_source
  exact rest_ne_nil_of_placed ((Advances.expressions n).unary c e c' h) ((places source n).unary on h) empty

theorem not_gives_readPostfix {n : Nat} {c c' : Cursor} {e : Expr} (empty : c.rest = []) :
    ¬ Gives (readPostfix n) c e c' := by
  intro h
  obtain ⟨source, on⟩ := c.exists_source
  exact rest_ne_nil_of_placed ((Advances.expressions n).postfixed c e c' h) ((places source n).postfixed on h) empty

theorem not_gives_readName {c c' : Cursor} {name : String} (empty : c.rest = []) : ¬ Gives readName c name c' := by
  intro h
  obtain ⟨_, _, look, h⟩ := gives_bind.mp h
  obtain ⟨rfl, rfl⟩ := gives_current?.mp look
  rw [empty] at h
  exact not_gives_failEnd h

theorem not_gives_readKey {n : Nat} {c c' : Cursor} {key : Key} (empty : c.rest = []) : ¬ Gives (readKey n) c key c' := by
  cases n with
  | zero => exact not_gives_failEnd
  | succ n =>
    intro h
    obtain ⟨_, _, look, h⟩ := gives_bind.mp h
    obtain ⟨rfl, rfl⟩ := gives_current?.mp look
    rw [empty] at h
    exact not_gives_failEnd h

theorem not_gives_separated {close : Char} {message : String} {f : Reading β} {c c' : Cursor} {b : β}
    (empty : c.rest = []) : ¬ Gives (separated close message f) c b c' := by
  intro h
  obtain ⟨_, _, look, h⟩ := gives_bind.mp h
  obtain ⟨rfl, rfl⟩ := gives_current?.mp look
  rw [empty] at h
  exact not_gives_failEnd h

theorem not_gives_expect {d : Char} {f : Unit → Reading β} {c c' : Cursor} {b : β} (empty : c.rest = []) :
    ¬ Gives (expect d >>= f) c b c' := by
  intro h
  obtain ⟨_, _, opens, -⟩ := gives_bind.mp h
  exact rest_ne_nil_of_head (expect_gives opens).1 empty

namespace Stays

variable {c : Cursor} {n m : Nat}

/-- A reading that goes over blanks at its end, before something that has to be there. -/
theorem closed {move : α → γ} {later : β → δ} {x : Reading α} {y : Reading γ} {f : α → Reading β} {g : γ → Reading δ}
    (fails : ∀ a c b c', c.rest = [] → ¬ Gives (f a) c b c') (first : Stays w false move x y c)
    (rest : ∀ a c₁, Gives x c a c₁ → Stays w true later (f a) (g (move a)) (c₁.skipWhile isSpace)) :
    Stays w true later (x >>= fun a => Grammar.skipSpaces >>= fun _ => f a)
      (y >>= fun a => Grammar.skipSpaces >>= fun _ => g a) c := by
  have some (a : α) (c₁ : Cursor) (b : β) (c' : Cursor) (h : Gives (f a) (c₁.skipWhile isSpace) b c') :
      (c₁.skipWhile isSpace).rest ≠ [] := fun empty => fails a _ b c' empty h
  refine .within first (fun _ a c₁ b c' _ h => ?_) fun a c₁ h => .skipSpaces (fun _ => some a c₁) (rest a c₁ h)
  obtain ⟨_, c₂, skips, h⟩ := gives_bind.mp h
  obtain rfl := gives_skipSpaces.mp skips
  exact (c₁.ahead_skipWhile _).rest_ne_nil (some a c₁ b c' h)

/-- A look past blanks at a character that has to be there. -/
theorem seek {later : β → δ} {f : Option Char → Reading β} {g : Option Char → Reading δ}
    (fails : ∀ c b c', c.rest = [] → ¬ Gives (f Option.none) c b c')
    (rest : Stays w whole later (f (c.skipWhile isSpace).rest.head?) (g (c.skipWhile isSpace).rest.head?)
      (c.skipWhile isSpace)) :
    Stays w whole later (Grammar.skipSpaces >>= fun _ => Grammar.current? >>= f)
      (Grammar.skipSpaces >>= fun _ => Grammar.current? >>= g) c := by
  have some (b : β) (c' : Cursor) (h : Gives (f (c.skipWhile isSpace).rest.head?) (c.skipWhile isSpace) b c') :
      (c.skipWhile isSpace).rest ≠ [] := by
    intro empty
    rw [empty] at h
    exact fails _ _ _ empty h
  refine .skipSpaces (fun _ b c' h => ?_) (.current? (fun _ => some) rest)
  obtain ⟨_, c₁, look, h⟩ := gives_bind.mp h
  obtain ⟨rfl, rfl⟩ := gives_current?.mp look
  exact some b c' h

theorem separated {later : β → δ} {close : Char} {message : String} {f : Reading β} {g : Reading δ}
    (rest : ∀ c, Stays w true later f g c) :
    Stays w true later (Grammar.separated close message f) (Grammar.separated close message g) c := by
  refine .peek (fun _ _ => not_gives_failEnd) ?_
  cases here : c.rest.head? with
  | none => exact .failEnd
  | some d =>
    dsimp only
    split
    · exact .skip (fun _ => length_pos_of_head here) (rest _)
    · split
      · refine .none fun _ _ h => ?_
        obtain ⟨_, _, fails, -⟩ := gives_bind.mp h
        exact not_gives_failHere fails
      · exact rest _

theorem readWord : Stays w whole (Expr.shifted w.before) readWord readWord c := by
  refine .offset (.bind .readName fun word c' _ => .offset ?_)
  dsimp only [id]
  split
  · exact .pure rfl
  · split
    · exact .failAt
    · exact .pure rfl

theorem checkUpdateTarget {target : Expr} :
    Stays w whole id (checkUpdateTarget target) (checkUpdateTarget (target.shifted w.before)) c := by
  unfold Grammar.checkUpdateTarget
  split
  · exact .pure rfl
  · exact .pure rfl
  · exact .failAt

theorem checkAssignTarget {target : Expr} :
    Stays w whole id (checkAssignTarget target) (checkAssignTarget (target.shifted w.before)) c := by
  unfold Grammar.checkAssignTarget
  split
  · exact .pure rfl
  · exact .pure rfl
  · exact .failAt
  · exact .failAt

theorem readUpdate {argument : Expr} :
    Stays w true (Expr.shifted w.before) (readUpdate argument) (readUpdate (argument.shifted w.before)) c := by
  refine .rest ?_
  rw [w.updateAt?_append]
  split
  · next op here =>
    refine .bind .checkUpdateTarget fun _ c₁ checks => .skip (fun _ => ?_) (.offset (.pure ?_))
    · rw [← (checkUpdateTarget_gives checks).1]
      exact length_of_updateAt? here
    · rw [Expr.shifted, Expr.span_shifted]
      rfl
  · exact .pure rfl

end Stays

theorem Infix.shifted_apply (k : Nat) (op : Infix) (left right : Expr) :
    (op.apply left right).shifted k = op.apply (left.shifted k) (right.shifted k) := by
  cases op <;> simp only [Infix.apply, Expr.shifted, Expr.span_shifted, Span.hull_shifted]

theorem shifted_finish (k : Nat) (optional : Bool) (e : Expr) :
    (readLinks.finish optional e).shifted k = readLinks.finish optional (e.shifted k) := by
  unfold readLinks.finish
  split
  · rw [Expr.shifted, Expr.span_shifted]
  · rfl

/-- The readings of expressions up to two bounds on their depth, the second no less. -/
structure Embeds (w : Surroundings) (n m : Nat) : Prop where
  sequence (c : Cursor) : Stays w false (Expr.shifted w.before) (readSequence n) (readSequence m) c
  more (c : Cursor) : Stays w false (Expr.itemsShifted w.before) (readMore n) (readMore m) c
  assignment (c : Cursor) : Stays w false (Expr.shifted w.before) (readAssignment n) (readAssignment m) c
  conditional (c : Cursor) : Stays w false (Expr.shifted w.before) (readConditional n) (readConditional m) c
  operation (least : Nat) (c : Cursor) :
    Stays w false (Expr.shifted w.before) (readOperation n least) (readOperation m least) c
  operators (least : Nat) (left : Expr) (c : Cursor) : Stays w false (Expr.shifted w.before)
    (readOperators n least left) (readOperators m least (left.shifted w.before)) c
  unary (c : Cursor) : Stays w false (Expr.shifted w.before) (readUnary n) (readUnary m) c
  postfixed (c : Cursor) : Stays w false (Expr.shifted w.before) (readPostfix n) (readPostfix m) c
  links (start : Nat) (optional : Bool) (e : Expr) (c : Cursor) : Stays w false (Expr.shifted w.before)
    (readLinks n start optional e) (readLinks m (start + w.before) optional (e.shifted w.before)) c
  computed (c : Cursor) : Stays w true (Expr.shifted w.before) (readComputed n) (readComputed m) c
  arguments (c : Cursor) : Stays w true (Expr.itemsShifted w.before) (readArguments n) (readArguments m) c
  items (close : Char) (message : String) (c : Cursor) :
    Stays w true (Expr.itemsShifted w.before) (readItems n close message) (readItems m close message) c
  primary (c : Cursor) : Stays w true (Expr.shifted w.before) (readPrimary n) (readPrimary m) c
  fields (c : Cursor) : Stays w true (Expr.fieldsShifted w.before) (readFields n) (readFields m) c
  key (c : Cursor) : Stays w true (Expr.keyShifted w.before) (readKey n) (readKey m) c

namespace Embeds

variable {n m : Nat} (ih : Embeds w n m) (c : Cursor)

include ih

theorem readSequence : Stays w false (Expr.shifted w.before) (readSequence (n + 1)) (readSequence (m + 1)) c := by
  refine .bind (ih.assignment c) fun first c₁ _ => .skipSpaces nofun (.current? nofun ?_)
  split
  · exact .bind (ih.more _) fun more c₂ _ => .offset (.pure (by rw [Expr.shifted, Expr.itemsShifted, Expr.span_shifted]; rfl))
  · exact .pure rfl

theorem readMore : Stays w false (Expr.itemsShifted w.before) (readMore (n + 1)) (readMore (m + 1)) c := by
  refine .current? nofun ?_
  split
  · refine .skip nofun (.bind (ih.assignment _) fun e c₁ _ => .skipSpaces nofun ?_)
    exact .bind (ih.more _) fun more c₂ _ => .pure rfl
  · exact .pure rfl

theorem readAssignment : Stays w false (Expr.shifted w.before) (readAssignment (n + 1)) (readAssignment (m + 1)) c := by
  refine .bind (ih.conditional c) fun target c₁ _ => .skipSpaces nofun (.rest ?_)
  rw [w.assignAt?_append]
  split
  · exact .pure rfl
  · refine .skip nofun (.bind .checkAssignTarget fun _ _ _ => .bind (ih.assignment _) fun value c₂ _ => .pure ?_)
    rw [Expr.shifted, Expr.span_shifted, Expr.span_shifted, Span.hull_shifted]

theorem readConditional : Stays w false (Expr.shifted w.before) (readConditional (n + 1)) (readConditional (m + 1)) c := by
  rw [readConditional_succ, readConditional_succ]
  refine .bind (ih.operation 0 c) fun test c₁ _ => .skipSpaces nofun ?_
  refine .rest ?_
  rw [w.choiceAt_append]
  split
  · refine .skip nofun (.bind (ih.assignment _) fun consequent c₂ _ => .skipSpaces nofun ?_)
    refine .bind (.expect ':') fun _ c₃ _ => .bind (ih.assignment _) fun alternate c₄ _ => .pure ?_
    rw [Expr.shifted, Expr.span_shifted, Expr.span_shifted, Span.hull_shifted]
  · exact .pure rfl

theorem readOperation (least : Nat) :
    Stays w false (Expr.shifted w.before) (readOperation (n + 1) least) (readOperation (m + 1) least) c :=
  .bind (ih.unary c) fun left c₁ _ => ih.operators least left c₁

theorem readOperators (least : Nat) (left : Expr) : Stays w false (Expr.shifted w.before)
    (readOperators (n + 1) least left) (readOperators (m + 1) least (left.shifted w.before)) c := by
  refine .skipSpaces nofun (.rest ?_)
  rw [w.infixAt?_append]
  split
  · exact .pure rfl
  · split
    · exact .pure rfl
    · refine .skip nofun (.bind (ih.operation _ _) fun right c₁ _ => ?_)
      rw [← Infix.shifted_apply]
      exact ih.operators _ _ _

theorem readUnary : Stays w false (Expr.shifted w.before) (readUnary (n + 1)) (readUnary (m + 1)) c := by
  refine .skipSpaces nofun (.offset (.rest ?_))
  rw [w.updateAt?_append, w.unaryAt?_append]
  split
  · refine .skip nofun (.bind (ih.unary _) fun argument c₁ _ => .bind .checkUpdateTarget fun _ c₂ _ => .pure ?_)
    rw [Expr.shifted, Expr.span_shifted]
    rfl
  · split
    · refine .skip nofun (.bind (ih.unary _) fun argument c₁ _ => .pure ?_)
      rw [Expr.shifted, Expr.span_shifted]
      rfl
    · exact ih.postfixed _

theorem readPostfix : Stays w false (Expr.shifted w.before) (readPostfix (n + 1)) (readPostfix (m + 1)) c := by
  rw [readPostfix_succ, readPostfix_succ]
  refine .bind (ih.primary c).loosen fun first c₁ _ => ?_
  rw [Expr.span_shifted]
  exact .bind (ih.links first.span.start false first c₁) fun argument c₂ _ => Stays.readUpdate.loosen

theorem readLink (start : Nat) (e : Expr) (l : LinkStart) (here : linkAt? c.rest = some l) : Stays w true
    (Expr.shifted w.before) (readLink n start e l) (readLink m (start + w.before) (e.shifted w.before) l) c := by
  have room := length_of_linkAt? here
  cases l with
  | optional =>
    refine .skip (fun _ => room) (.seek (fun c x c' empty => ?_) ?_)
    · exact not_gives_first (fun _ _ => not_gives_readName empty) x c'
    · split
      · exact .bind (ih.arguments _) fun arguments c₁ _ => .offset (.pure rfl)
      · exact .bind (ih.computed _) fun key c₁ _ => .offset (.pure rfl)
      · exact .bind .readName fun name c₁ _ => .offset (.pure rfl)
  | member =>
    refine .skip (fun _ => room) (.skipSpaces (fun _ x c' h empty => ?_) ?_)
    · exact not_gives_first (fun _ _ => not_gives_readName empty) x c' h
    · exact .bind .readName fun name c₁ _ => .offset (.pure rfl)
  | computed => exact .bind (ih.computed _) fun key c₁ _ => .offset (.pure rfl)
  | call => exact .bind (ih.arguments _) fun arguments c₁ _ => .offset (.pure rfl)

theorem readLinks (start : Nat) (optional : Bool) (e : Expr) : Stays w false (Expr.shifted w.before)
    (readLinks (n + 1) start optional e) (readLinks (m + 1) (start + w.before) optional (e.shifted w.before)) c := by
  rw [readLinks_succ, readLinks_succ]
  refine .skipSpaces nofun (.rest ?_)
  rw [w.linkAt?_append]
  split
  · exact .pure (shifted_finish w.before optional e)
  · next l here => exact .bind (ih.readLink _ start e l here).loosen fun e c₁ _ => ih.links _ _ e c₁

theorem readComputed : Stays w true (Expr.shifted w.before) (readComputed (n + 1)) (readComputed (m + 1)) c :=
  .bind (.expect '[') fun _ c₁ _ => .closed (fun _ _ _ _ => not_gives_expect) (ih.sequence c₁) fun _ _ _ =>
    .bind (.expect ']') fun _ _ _ => .pure rfl

theorem readArguments : Stays w true (Expr.itemsShifted w.before) (readArguments (n + 1)) (readArguments (m + 1)) c :=
  .bind (.expect '(') fun _ c₁ _ => ih.items _ _ c₁

theorem readItems (close : Char) (message : String) : Stays w true (Expr.itemsShifted w.before)
    (readItems (n + 1) close message) (readItems (m + 1) close message) c := by
  refine .seek (fun c es c' empty => ?_) ?_
  · exact not_gives_first (fun _ _ => not_gives_readAssignment empty) es c'
  · split
    · next here => exact .skip (fun _ => length_pos_of_head here) (.pure rfl)
    · refine .closed (fun _ _ _ _ => not_gives_separated) (ih.assignment _) fun e c₁ _ => .separated fun c => ?_
      exact .bind (ih.items _ _ c) fun _ _ _ => .pure rfl

theorem readPrimary : Stays w true (Expr.shifted w.before) (readPrimary (n + 1)) (readPrimary (m + 1)) c := by
  refine .skipSpaces (fun _ e c' h empty => ?_) (.offset (.rest ?_))
  · obtain ⟨_, _, look, h⟩ := gives_bind.mp h
    obtain ⟨rfl, rfl⟩ := gives_offset.mp look
    obtain ⟨_, _, look, h⟩ := gives_bind.mp h
    obtain ⟨rfl, rfl⟩ := gives_rest.mp look
    rw [empty] at h
    exact not_gives_failEnd h
  · cases here : (c.skipWhile isSpace).rest with
    | nil => exact .failEnd
    | cons d r =>
      have room : 1 ≤ (c.skipWhile isSpace).rest.length := by
        rw [here]
        exact Nat.succ_pos _
      have head : (c.skipWhile isSpace).rest.head? = some d := by rw [here]; rfl
      simp only [List.cons_append, w.numeral_append]
      split
      · exact .bind .readNumber fun x c₁ _ => .offset (.pure rfl)
      · split
        · exact .bind (.readString d d head) fun s c₁ _ => .offset (.pure rfl)
        · split
          · refine .skip (fun _ => room) ?_
            refine .closed (fun _ _ _ _ => not_gives_expect) (ih.sequence _) fun _ _ _ => ?_
            exact .bind (.expect ')') fun _ _ _ => .pure rfl
          · split
            · exact .skip (fun _ => room) (.bind (ih.items _ _ _) fun items c₁ _ => .offset (.pure rfl))
            · split
              · exact .skip (fun _ => room) (.bind (ih.fields _) fun fields c₁ _ => .offset (.pure rfl))
              · split
                · exact .readWord
                · exact .failHere

theorem readKey : Stays w true (Expr.keyShifted w.before) (readKey (n + 1)) (readKey (m + 1)) c := by
  refine .peek (fun _ _ => not_gives_failEnd) ?_
  cases here : c.rest.head? with
  | none => exact .failEnd
  | some d =>
    dsimp only
    split
    · refine .skip (fun _ => length_pos_of_head here) ?_
      refine .closed (fun _ _ _ _ => not_gives_expect) (ih.assignment _) fun _ _ _ => ?_
      exact .bind (.expect ']') fun _ _ _ => .pure rfl
    · split
      · exact .bind (.readString d d here) fun _ _ _ => .pure rfl
      · split
        · exact .bind .readNumber fun _ _ _ => .pure rfl
        · exact .bind .readName fun _ _ _ => .pure rfl

theorem fieldValue (written : List Char) (span : Span) (key : Key) : Stays w false (Expr.shifted w.before)
    (fieldValue n written span key) (fieldValue m written (span.shifted w.before) (Expr.keyShifted w.before key)) c := by
  refine .current? nofun ?_
  split
  · exact .skip nofun (ih.assignment _)
  · cases key with
    | computed e => exact .failHere
    | named name =>
      dsimp only [Expr.keyShifted]
      split
      · exact .pure rfl
      · exact .failHere

theorem readFields : Stays w true (Expr.fieldsShifted w.before) (readFields (n + 1)) (readFields (m + 1)) c := by
  rw [readFields_succ, readFields_succ]
  refine .skipSpaces (fun _ fields c' h empty => ?_) (.offset (.rest ?_))
  · obtain ⟨_, _, look, h⟩ := gives_bind.mp h
    obtain ⟨rfl, rfl⟩ := gives_offset.mp look
    obtain ⟨_, _, look, h⟩ := gives_bind.mp h
    obtain ⟨rfl, rfl⟩ := gives_rest.mp look
    rw [empty] at h
    exact not_gives_first (fun _ _ => not_gives_readKey empty) fields c' h
  · cases here : (c.skipWhile isSpace).rest with
    | nil =>
      exact .none (not_gives_first fun _ _ => not_gives_readKey here)
    | cons d r =>
      rw [List.cons_append]
      show Stays w true _ (if some d = some '\x7d' then _ else _) (if some d = some '\x7d' then _ else _) _
      split
      · exact .skip (fun _ => by rw [here]; exact Nat.succ_pos _) (.pure rfl)
      · refine .bind (ih.key _) fun key c₁ h => .offset ?_
        -- What is written of a key is what has been passed over, in both texts.
        obtain ⟨read, rest, offset⟩ := (ih.key _ _ _ h).1
        have written (behind : List Char) : Text.takeBytes (c₁.offset - (c.skipWhile isSpace).offset)
            (d :: (r ++ behind)) = read := by
          rw [← List.cons_append, ← here, rest, List.append_assoc, offset, Nat.add_sub_cancel_left, Text.takeBytes_append]
        have alone := written []
        rw [List.append_nil] at alone
        simp only [Nat.add_sub_add_right, written w.behind, alone]
        refine .skipSpaces (fun _ fields c' h empty => ?_) ?_
        · obtain ⟨value, c₂, reads, h⟩ := gives_bind.mp h
          obtain ⟨_, c₃, skips, h⟩ := gives_bind.mp h
          obtain rfl := gives_skipSpaces.mp skips
          have on := ((ih.fieldValue _ _ _ key) value c₂ reads).1.trans (c₂.ahead_skipWhile isSpace)
          exact on.rest_ne_nil (fun empty => not_gives_separated empty h) empty
        · refine .closed (fun _ _ _ _ => not_gives_separated) (ih.fieldValue _ _ _ key) fun value c₂ _ => ?_
          exact .separated fun c => .bind (ih.fields c) fun _ _ _ => .pure rfl

theorem succ : Embeds w (n + 1) (m + 1) where
  sequence := ih.readSequence
  more := ih.readMore
  assignment := ih.readAssignment
  conditional := ih.readConditional
  operation least c := ih.readOperation c least
  operators least left c := ih.readOperators c least left
  unary := ih.readUnary
  postfixed := ih.readPostfix
  links start optional e c := ih.readLinks c start optional e
  computed := ih.readComputed
  arguments := ih.readArguments
  items close message c := ih.readItems c close message
  primary := ih.readPrimary
  fields := ih.readFields
  key := ih.readKey

end Embeds

/-- What is read with some fuel is read in surroundings with as much fuel or more. -/
theorem embeds (w : Surroundings) {n m : Nat} (le : n ≤ m) : Embeds w n m := by
  induction n generalizing m with
  | zero =>
    constructor <;> intros <;> exact .failEnd
  | succ n ih =>
    cases m with
    | zero => cases le
    | succ m => exact (ih (Nat.le_of_succ_le_succ le)).succ

/-! ## More fuel -/

theorem Stays.again {move : α → α} {x y : Reading α} {c c' : Cursor} {a : α} (h : Stays (.ahead 0) whole move x y c)
    (same : ∀ a, move a = a) (gives : Gives x c a c') : Gives y c a c' := by
  have again := (h a c' gives).2 fun _ => .inl rfl
  rw [Cursor.amid_ahead_zero, Cursor.amid_ahead_zero, same] at again
  exact again

/-- What is read with some fuel is read with more. -/
structure Refuels (n m : Nat) : Prop where
  sequence {c e c'} (h : Gives (readSequence n) c e c') : Gives (readSequence m) c e c'
  more {c es c'} (h : Gives (readMore n) c es c') : Gives (readMore m) c es c'
  assignment {c e c'} (h : Gives (readAssignment n) c e c') : Gives (readAssignment m) c e c'
  operation {least c e c'} (h : Gives (readOperation n least) c e c') : Gives (readOperation m least) c e c'
  operators {least left c e c'} (h : Gives (readOperators n least left) c e c') :
    Gives (readOperators m least left) c e c'
  unary {c e c'} (h : Gives (readUnary n) c e c') : Gives (readUnary m) c e c'
  links {start optional e c x c'} (h : Gives (readLinks n start optional e) c x c') :
    Gives (readLinks m start optional e) c x c'
  link {start e l c x c'} (here : linkAt? c.rest = some l) (h : Gives (readLink n start e l) c x c') :
    Gives (readLink m start e l) c x c'
  items {close message c es c'} (h : Gives (readItems n close message) c es c') :
    Gives (readItems m close message) c es c'
  primary {c e c'} (h : Gives (readPrimary n) c e c') : Gives (readPrimary m) c e c'
  fields {c fields c'} (h : Gives (readFields n) c fields c') : Gives (readFields m) c fields c'
  key {c key c'} (h : Gives (readKey n) c key c') : Gives (readKey m) c key c'

theorem refuels {n m : Nat} (le : n ≤ m) : Refuels n m where
  sequence h := ((embeds (.ahead 0) le).sequence _).again Expr.shifted_zero h
  more h := ((embeds (.ahead 0) le).more _).again Expr.itemsShifted_zero h
  assignment h := ((embeds (.ahead 0) le).assignment _).again Expr.shifted_zero h
  operation h := ((embeds (.ahead 0) le).operation _ _).again Expr.shifted_zero h
  operators {least left c _ _} h := by
    have again := (embeds (.ahead 0) le).operators least left c
    rw [show (Surroundings.ahead 0).before = 0 from rfl, Expr.shifted_zero] at again
    exact again.again Expr.shifted_zero h
  unary h := ((embeds (.ahead 0) le).unary _).again Expr.shifted_zero h
  links {start optional e c _ _} h := by
    have again := (embeds (.ahead 0) le).links start optional e c
    rw [show (Surroundings.ahead 0).before = 0 from rfl, Expr.shifted_zero] at again
    exact again.again Expr.shifted_zero h
  link {start e l c _ _} here h := by
    have again := (embeds (.ahead 0) le).readLink c start e l here
    rw [show (Surroundings.ahead 0).before = 0 from rfl, Expr.shifted_zero] at again
    exact again.again Expr.shifted_zero h
  items h := ((embeds (.ahead 0) le).items _ _ _).again Expr.itemsShifted_zero h
  primary h := ((embeds (.ahead 0) le).primary _).again Expr.shifted_zero h
  fields h := ((embeds (.ahead 0) le).fields _).again Expr.fieldsShifted_zero h
  key h := ((embeds (.ahead 0) le).key _).again Expr.keyShifted_zero h

end Grammar
end PromptScript
