import PromptScript.Proofs.Embedded

/-! # Shapes of expressions

Not every expression is one that is read: a sequence has two parts or more, what is assigned or updated is a variable or a
member, an optional link is part of a chain, and a chain has one. -/
namespace PromptScript

/-- Whether a text is a name. -/
def Grammar.isName : List Char → Bool
  | [] => false
  | d :: r => isNameStart d && r.all isNameChar

/-- Whether there is a symbol for an assignment. -/
def AssignOp.isWritten (op : AssignOp) : Bool := op = .assign || (Grammar.assignSymbols.map Prod.snd).contains op

theorem Grammar.isWritten_of_assignAt? {text : List Char} {symbol : String} {op : AssignOp}
    (h : assignAt? text = some (symbol, op)) : op.isWritten = true := by
  unfold assignAt? at h
  split at h
  · next found here =>
    cases h
    have there : op ∈ assignSymbols.map Prod.snd :=
      List.mem_map.mpr ⟨(symbol, op), List.mem_of_find?_eq_some here, rfl⟩
    unfold AssignOp.isWritten
    rw [List.contains_iff_mem.mpr there, Bool.or_true]
  · split at h <;> cases h
    rfl

namespace Expr

/-- Whether one of the links that an expression ends in is optional. -/
def hasOptional : Expr → Bool
  | member _ base _ optional => optional || hasOptional base
  | call _ callee _ optional => optional || hasOptional callee
  | _ => false

/-- Whether an expression may be assigned or updated. -/
def isTarget : Expr → Bool
  | identifier _ _ => true
  | member _ _ _ false => true
  | _ => false

mutual

/-- The shape of what is read; the links that an expression ends in are those of a chain or not. -/
def Formed (chained : Bool) : Expr → Prop
  | literal _ value => value.isSingle = true
  | identifier _ _ => True
  | array _ items => itemsFormed items
  | object _ fields => fieldsFormed fields
  | sequence _ items => 2 ≤ items.length ∧ itemsFormed items
  | unary _ _ e => Formed false e
  | binary _ _ a b | logical _ _ a b => Formed false a ∧ Formed false b
  | assignment _ op target value =>
    op.isWritten = true ∧ target.isTarget = true ∧ Formed false target ∧ Formed false value
  | update _ _ _ e => e.isTarget = true ∧ Formed false e
  | member _ base key optional => (optional = true → chained = true) ∧ Formed chained base ∧ keyFormed key
  | conditional _ test a b => Formed false test ∧ Formed false a ∧ Formed false b
  | call _ callee arguments optional => (optional = true → chained = true) ∧ Formed chained callee ∧ itemsFormed arguments
  | chain _ e => e.hasOptional = true ∧ Formed true e

def itemsFormed : List Expr → Prop
  | [] => True
  | e :: r => Formed false e ∧ itemsFormed r

/-- The keys of fields may be any texts. -/
def fieldsFormed : List (Key × Expr) → Prop
  | [] => True
  | (.named _, e) :: r => Formed false e ∧ fieldsFormed r
  | (.computed key, e) :: r => Formed false key ∧ Formed false e ∧ fieldsFormed r

/-- The keys of members are names, if they are not computed. -/
def keyFormed : Key → Prop
  | .named name => Grammar.isName name.toList = true
  | .computed e => Formed false e

end

/-- Outside of a chain an expression is as it may be inside. -/
theorem Formed.loosen : ∀ {e : Expr}, e.Formed false → e.Formed true
  | literal .., h | identifier .., h | array .., h | object .., h | sequence .., h | unary .., h | binary .., h
  | logical .., h | assignment .., h | update .., h | conditional .., h | chain .., h => h
  | member .., ⟨plain, base, key⟩ => ⟨fun optional => Bool.noConfusion (plain optional), loosen base, key⟩
  | call .., ⟨plain, callee, arguments⟩ => ⟨fun optional => Bool.noConfusion (plain optional), loosen callee, arguments⟩

theorem Formed.chained {chained : Bool} {e : Expr} (h : e.Formed chained) : e.Formed true := by
  cases chained with
  | true => exact h
  | false => exact h.loosen

end Expr

/-! ## What readings make -/

variable {α β : Type}

/-- What a reading makes has a property. -/
def Makes (x : Reading α) (P : α → Prop) : Prop := ∀ c a c', Gives x c a c' → P a

namespace Makes

variable {P : α → Prop} {Q : β → Prop} {x y : Reading α}

theorem pure {a : α} (h : P a) : Makes (Pure.pure a) P := by
  intro c b c' gives
  obtain ⟨rfl, -⟩ := gives_pure.mp gives
  exact h

theorem bind {f : α → Reading β} (first : Makes x P) (rest : ∀ a, P a → Makes (f a) Q) : Makes (x >>= f) Q := by
  intro c b c' gives
  obtain ⟨a, c₁, hx, hf⟩ := gives_bind.mp gives
  exact rest a (first c a c₁ hx) c₁ b c' hf

theorem any (x : Reading α) : Makes x fun _ => True := fun _ _ _ _ => trivial

/-- A reading of which nothing need be known. -/
theorem past {f : α → Reading β} (rest : ∀ a, Makes (f a) Q) : Makes (x >>= f) Q := (any x).bind fun a _ => rest a

theorem ite {p : Prop} [Decidable p] (hx : Makes x P) (hy : Makes y P) : Makes (if p then x else y) P := by
  split
  · exact hx
  · exact hy

theorem failHere {message : String} : Makes (Grammar.failHere message) P := fun _ _ _ h => (Grammar.not_gives_failHere h).elim

theorem failEnd : Makes Grammar.failEnd P := fun _ _ _ h => (Grammar.not_gives_failEnd h).elim

theorem failAt {defect : Defect} {span : Span} : Makes (Grammar.failAt defect span) P :=
  fun _ _ _ h => (Grammar.not_gives_failAt h).elim

end Makes

namespace Grammar

theorem makes_readName : Makes readName fun name => isName name.toList = true := by
  intro c name c' h
  obtain ⟨_, c₁, look, h⟩ := gives_bind.mp h
  obtain ⟨rfl, rfl⟩ := gives_current?.mp look
  split at h
  · exact (not_gives_failEnd h).elim
  · next d here =>
    split at h
    · next start =>
      obtain ⟨text, c₂, takes, h⟩ := gives_bind.mp h
      obtain ⟨rfl, rfl⟩ := gives_takeWhile.mp takes
      obtain ⟨rfl, -⟩ := gives_pure.mp h
      obtain ⟨offset, rest⟩ := c
      cases rest with
      | nil => cases here
      | cons a r =>
        cases here
        have continues : isNameChar d = true := by rw [isNameChar, start]; rfl
        rw [String.toList_ofList, List.takeWhile_cons_of_pos continues]
        exact Bool.and_eq_true_iff.mpr ⟨start, List.all_takeWhile⟩
    · exact (not_gives_failHere h).elim

theorem makes_readWord : Makes readWord (Expr.Formed false) := by
  refine .past fun _ => .past fun word => .past fun _ => ?_
  dsimp only
  split
  · next v value =>
    refine .pure ?_
    unfold wordValue? at value
    split at value <;> cases value <;> rfl
  · exact .ite .failAt (.pure trivial)

theorem makes_checkUpdateTarget {target : Expr} : Makes (checkUpdateTarget target) fun _ => target.isTarget = true := by
  unfold checkUpdateTarget
  split
  · exact .pure rfl
  · exact .pure rfl
  · exact .failAt

theorem makes_checkAssignTarget {target : Expr} : Makes (checkAssignTarget target) fun _ => target.isTarget = true := by
  unfold checkAssignTarget
  split
  · exact .pure rfl
  · exact .pure rfl
  · exact .failAt
  · exact .failAt

theorem Infix.apply_formed (op : Infix) {left right : Expr} (hl : left.Formed false) (hr : right.Formed false) :
    (op.apply left right).Formed false := by
  cases op <;> exact ⟨hl, hr⟩

/-- The readings of expressions, up to a bound on their depth, make what is formed. -/
structure Forms (n : Nat) : Prop where
  sequence : Makes (readSequence n) (Expr.Formed false)
  more : Makes (readMore n) Expr.itemsFormed
  assignment : Makes (readAssignment n) (Expr.Formed false)
  conditional : Makes (readConditional n) (Expr.Formed false)
  operation (least : Nat) : Makes (readOperation n least) (Expr.Formed false)
  operators (least : Nat) {left : Expr} (formed : left.Formed false) :
    Makes (readOperators n least left) (Expr.Formed false)
  unary : Makes (readUnary n) (Expr.Formed false)
  postfixed : Makes (readPostfix n) (Expr.Formed false)
  links (start : Nat) {optional : Bool} {e : Expr} (formed : e.Formed optional) (has : optional = true → e.hasOptional = true) :
    Makes (readLinks n start optional e) (Expr.Formed false)
  computed : Makes (readComputed n) (Expr.Formed false)
  arguments : Makes (readArguments n) Expr.itemsFormed
  items (close : Char) (message : String) : Makes (readItems n close message) Expr.itemsFormed
  primary : Makes (readPrimary n) (Expr.Formed false)
  fields : Makes (readFields n) Expr.fieldsFormed
  key : Makes (readKey n) fun key => ∀ e, key = .computed e → e.Formed false

/-- After a comma there is one more expression at least. -/
theorem readMore_ne_nil {n : Nat} {c c' : Cursor} {es : List Expr} (comma : c.rest.head? = some ',')
    (h : Gives (readMore n) c es c') : es ≠ [] := by
  cases n with
  | zero => exact (not_gives_failEnd h).elim
  | succ n =>
    obtain ⟨_, _, look, h⟩ := gives_bind.mp h
    obtain ⟨rfl, rfl⟩ := gives_current?.mp look
    rw [if_pos comma] at h
    obtain ⟨_, _, -, h⟩ := gives_bind.mp h
    obtain ⟨_, _, -, h⟩ := gives_bind.mp h
    obtain ⟨_, _, -, h⟩ := gives_bind.mp h
    obtain ⟨_, _, -, h⟩ := gives_bind.mp h
    obtain ⟨rfl, -⟩ := gives_pure.mp h
    exact List.cons_ne_nil _ _

namespace Forms

variable {n : Nat} (ih : Forms n)

include ih

theorem readSequence : Makes (readSequence (n + 1)) (Expr.Formed false) := by
  refine .bind ih.assignment fun first formed => .past fun _ => ?_
  intro c e c' h
  obtain ⟨_, _, look, h⟩ := gives_bind.mp h
  obtain ⟨rfl, rfl⟩ := gives_current?.mp look
  split at h
  · next comma =>
    obtain ⟨more, c₁, reads, h⟩ := gives_bind.mp h
    obtain ⟨_, _, -, h⟩ := gives_bind.mp h
    obtain ⟨rfl, -⟩ := gives_pure.mp h
    exact ⟨Nat.succ_le_succ (List.length_pos_iff.mpr (readMore_ne_nil comma reads)), formed, ih.more _ _ _ reads⟩
  · obtain ⟨rfl, -⟩ := gives_pure.mp h
    exact formed

theorem readMore : Makes (readMore (n + 1)) Expr.itemsFormed := by
  refine .past fun _ => .ite ?_ (.pure trivial)
  exact .past fun _ => .bind ih.assignment fun e formed => .past fun _ => .bind ih.more fun more rest => .pure ⟨formed, rest⟩

theorem readAssignment : Makes (readAssignment (n + 1)) (Expr.Formed false) := by
  refine .bind ih.conditional fun target formed => .past fun _ => .past fun text => ?_
  split
  · exact .pure formed
  · next symbol op here =>
    refine .past fun _ => .bind makes_checkAssignTarget fun _ targets => .bind ih.assignment fun value later => ?_
    exact .pure ⟨isWritten_of_assignAt? here, targets, formed, later⟩

theorem readConditional : Makes (readConditional (n + 1)) (Expr.Formed false) := by
  rw [readConditional_succ]
  refine .bind (ih.operation 0) fun test formed => .past fun _ => .past fun text => .ite ?_ (.pure formed)
  refine .past fun _ => .bind ih.assignment fun consequent formed₁ => .past fun _ => .past fun _ => ?_
  exact .bind ih.assignment fun alternate formed₂ => .pure ⟨formed, formed₁, formed₂⟩

theorem readOperation (least : Nat) : Makes (readOperation (n + 1) least) (Expr.Formed false) :=
  .bind ih.unary fun _ formed => ih.operators least formed

theorem readOperators (least : Nat) {left : Expr} (formed : left.Formed false) :
    Makes (readOperators (n + 1) least left) (Expr.Formed false) := by
  refine .past fun _ => .past fun text => ?_
  split
  · exact .pure formed
  · refine .ite (.pure formed) (.past fun _ => .bind (ih.operation _) fun right later => ?_)
    exact ih.operators least (Infix.apply_formed _ formed later)

theorem readUnary : Makes (readUnary (n + 1)) (Expr.Formed false) := by
  refine .past fun _ => .past fun _ => .past fun text => ?_
  split
  · refine .past fun _ => .bind ih.unary fun argument formed => .bind makes_checkUpdateTarget fun _ targets => ?_
    exact .pure ⟨targets, formed⟩
  · split
    · exact .past fun _ => .bind ih.unary fun argument formed => .pure formed
    · exact ih.postfixed

theorem readPostfix : Makes (readPostfix (n + 1)) (Expr.Formed false) := by
  refine .bind ih.primary fun first formed => .bind (ih.links _ formed nofun) fun argument formed => .past fun text => ?_
  split
  · exact .bind makes_checkUpdateTarget fun _ targets => .past fun _ => .past fun _ => .pure ⟨targets, formed⟩
  · exact .pure formed

theorem readLink (start : Nat) {optional : Bool} {e : Expr} (formed : e.Formed optional)
    (has : optional = true → e.hasOptional = true) (l : LinkStart) : Makes (readLink n start e l) fun e =>
      e.Formed (l.optionalAfter optional) ∧ (l.optionalAfter optional = true → e.hasOptional = true) := by
  have later (key : Expr) (h : key.Formed false) : Expr.keyFormed (.computed key) := h
  cases l with
  | optional =>
    refine .past fun _ => .past fun _ => .past fun d => ?_
    split
    · exact .bind ih.arguments fun arguments rest => .past fun _ => .pure ⟨⟨fun _ => rfl, formed.chained, rest⟩, fun _ => rfl⟩
    · exact .bind ih.computed fun key h => .past fun _ => .pure ⟨⟨fun _ => rfl, formed.chained, h⟩, fun _ => rfl⟩
    · exact .bind makes_readName fun name h => .past fun _ => .pure ⟨⟨fun _ => rfl, formed.chained, h⟩, fun _ => rfl⟩
  | member =>
    refine .past fun _ => .past fun _ => .bind makes_readName fun name h => .past fun _ => ?_
    exact .pure ⟨⟨nofun, formed, h⟩, has⟩
  | computed => exact .bind ih.computed fun key h => .past fun _ => .pure ⟨⟨nofun, formed, h⟩, has⟩
  | call => exact .bind ih.arguments fun arguments rest => .past fun _ => .pure ⟨⟨nofun, formed, rest⟩, has⟩

theorem readLinks (start : Nat) {optional : Bool} {e : Expr} (formed : e.Formed optional)
    (has : optional = true → e.hasOptional = true) : Makes (readLinks (n + 1) start optional e) (Expr.Formed false) := by
  rw [readLinks_succ]
  refine .past fun _ => .past fun text => ?_
  split
  · refine .pure ?_
    cases optional with
    | false => exact formed
    | true => exact ⟨has rfl, formed⟩
  · exact .bind (ih.readLink start formed has _) fun e h => ih.links start h.1 h.2

theorem readComputed : Makes (readComputed (n + 1)) (Expr.Formed false) :=
  .past fun _ => .bind ih.sequence fun _ formed => .past fun _ => .past fun _ => .pure formed

theorem readArguments : Makes (readArguments (n + 1)) Expr.itemsFormed := .past fun _ => ih.items _ _

theorem readItems (close : Char) (message : String) : Makes (readItems (n + 1) close message) Expr.itemsFormed := by
  refine .past fun _ => .past fun _ => .ite (.past fun _ => .pure trivial) ?_
  refine .bind ih.assignment fun e formed => .past fun _ => .past fun d => ?_
  have rest : Makes (do return e :: (← Grammar.readItems n close message)) Expr.itemsFormed :=
    .bind (ih.items close message) fun items h => .pure ⟨formed, h⟩
  split
  · exact .failEnd
  · exact .ite (.past fun _ => rest) (.ite (.past fun _ => rest) rest)

theorem readPrimary : Makes (readPrimary (n + 1)) (Expr.Formed false) := by
  refine .past fun _ => .past fun _ => .past fun text => ?_
  split
  · exact .failEnd
  · refine .ite (.past fun _ => .past fun _ => .pure rfl) (.ite (.past fun _ => .past fun _ => .pure rfl) (.ite ?_ ?_))
    · exact .past fun _ => .bind ih.sequence fun _ formed => .past fun _ => .past fun _ => .pure formed
    · refine .ite (.past fun _ => .bind (ih.items _ _) fun _ formed => .past fun _ => .pure formed) (.ite ?_ ?_)
      · exact .past fun _ => .bind ih.fields fun _ formed => .past fun _ => .pure formed
      · exact .ite makes_readWord .failHere

theorem readFields : Makes (readFields (n + 1)) Expr.fieldsFormed := by
  rw [readFields_succ]
  refine .past fun _ => .past fun _ => .past fun text => .ite (.past fun _ => .pure trivial) ?_
  refine .bind ih.key fun key computed => .past fun _ => .past fun _ => .bind (P := Expr.Formed false) ?_ fun value formed => ?_
  · refine .past fun _ => .ite (.past fun _ => ih.assignment) ?_
    cases key with
    | computed e => exact .failHere
    | named name => exact .ite (.pure trivial) .failHere
  · have rest : Makes (do return (key, value) :: (← Grammar.readFields n)) Expr.fieldsFormed := by
      refine .bind ih.fields fun fields h => .pure ?_
      cases key with
      | named name => exact ⟨formed, h⟩
      | computed e => exact ⟨computed e rfl, formed, h⟩
    refine .past fun _ => .past fun d => ?_
    split
    · exact .failEnd
    · exact .ite (.past fun _ => rest) (.ite (.past fun _ => rest) rest)

theorem readKey : Makes (readKey (n + 1)) fun key => ∀ e, key = .computed e → e.Formed false := by
  refine .past fun d => ?_
  split
  · exact .failEnd
  · refine .ite ?_ (.ite ?_ (.ite ?_ ?_))
    · exact .past fun _ => .bind ih.assignment fun e formed => .past fun _ => .past fun _ => .pure (by rintro _ ⟨⟩; exact formed)
    · exact .past fun _ => .pure nofun
    · exact .past fun _ => .pure nofun
    · exact .past fun _ => .pure nofun

theorem succ : Forms (n + 1) where
  sequence := ih.readSequence
  more := ih.readMore
  assignment := ih.readAssignment
  conditional := ih.readConditional
  operation := ih.readOperation
  operators least _ formed := ih.readOperators least formed
  unary := ih.readUnary
  postfixed := ih.readPostfix
  links start _ _ formed has := ih.readLinks start formed has
  computed := ih.readComputed
  arguments := ih.readArguments
  items := ih.readItems
  primary := ih.readPrimary
  fields := ih.readFields
  key := ih.readKey

end Forms

theorem forms (n : Nat) : Forms n := by
  induction n with
  | zero => constructor <;> intros <;> exact .failEnd
  | succ n ih => exact ih.succ

end Grammar

/-- What is read from a source is formed. -/
theorem Expr.formed_of_parse {source : List Char} {e : Expr} (h : parse source = .ok e) : e.Formed false := by
  unfold parse at h
  split at h
  · next found c' reads =>
    cases h
    have whole : Makes Grammar.readWhole (Expr.Formed false) := by
      refine .bind (.past fun text => (Grammar.forms _).sequence) fun e formed => .past fun _ => .past fun _ => ?_
      exact .ite (.pure formed) .failHere
    exact whole _ _ _ reads
  · cases h

end PromptScript
