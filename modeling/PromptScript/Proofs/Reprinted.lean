import PromptScript.Proofs.Standing

/-! # Printed expressions are read again

What is printed is read as an expression that differs in its spans alone: for each kind of expression from the same for its
parts, and for the links of a chain from the same for what they follow. -/
namespace PromptScript
namespace Grammar

variable {digits : Float → List Char} {text rest : List Char}

/-! ## Links -/

/-- The text of a link: after whatever expression, it is read as a link of that expression. -/
structure Linked (more rest : List Char) (optional : Bool) (make : Expr → Expr → Prop) : Prop where
  head : ∀ d ∈ (more ++ rest).head?, isSpace d = false ∧ isNameChar d = false
  reads : ∃ l, linkAt? (more ++ rest) = some l ∧ (∀ met, l.optionalAfter met = (optional || met)) ∧
    ∀ start e k, ∃ n x, make e x ∧ x.span.start = start ∧
      Gives (readLink n start e l) ⟨k, more ++ rest⟩ x ⟨k + Text.byteLength more, rest⟩

theorem Heads.linked {more : List Char} {optional met : Bool} {make : Expr → Expr → Prop} {k : Nat} {e : Expr}
    (h : Heads text (more ++ rest) k e met) (link : Linked more rest optional make) :
    ∃ x, make e x ∧ Heads (text ++ more) rest k x (optional || met) := by
  obtain ⟨l, here, marks, reads⟩ := link.reads
  obtain ⟨n, x, made, start, reads⟩ := reads e.span.start e (k + Text.byteLength text)
  refine ⟨x, made, ?_⟩
  rw [← marks met]
  rw [Nat.add_assoc, ← Text.byteLength_append] at reads
  exact h.link (fun d head => (link.head d head).1) here reads start

theorem after_mark (k : Nat) (more : List Char) :
    k + 2 + Text.byteLength more = k + Text.byteLength ('?' :: '.' :: more) := by
  show k + 2 + Text.byteLength more = k + (1 + (1 + Text.byteLength more))
  omega

/-- What a member of an expression is. -/
def MemberOf (key : Key) (optional : Bool) (e x : Expr) : Prop :=
  ∃ span key', Expr.keyUnplaced key' = Expr.keyUnplaced key ∧ x = .member span e key' optional

theorem isNameStart_apart {d e : Char} (start : isNameStart d = true) (other : isNameStart e = false) : d ≠ e := by
  rintro rfl
  rw [start] at other
  cases other

theorem solid_of_isNameStart {d : Char} (start : isNameStart d = true) : isSpace d = false := by
  cases blank : isSpace d with
  | false => rfl
  | true => rw [isNameStart_of_isSpace blank] at start; cases start

/-- Digits are before all characters that a name starts with, but for the dollar sign. -/
theorem not_isDigit_of_isNameStart {d : Char} (start : isNameStart d = true) : d.isDigit = false := by
  rw [Bool.eq_false_iff]
  intro digit
  have range : 48 ≤ d.toNat ∧ d.toNat ≤ 57 := Char.isDigit_iff_toNat.mp digit
  have other : 65 ≤ d.toNat ∨ d.toNat = 36 := by
    simp only [isNameStart, Bool.or_eq_true, beq_iff_eq, decide_eq_true_eq] at start
    rcases start with ((letter | rfl) | rfl) | far
    · rcases Bool.or_eq_true_iff.mp letter with upper | lower
      · exact .inl (of_decide_eq_true upper).1
      · exact .inl (Nat.le_trans (show 65 ≤ 97 by decide) (of_decide_eq_true (Bool.and_eq_true_iff.mp lower).1))
    · exact .inl (by decide)
    · exact .inr rfl
    · exact .inl (Nat.le_trans (show 65 ≤ 128 by decide) far)
  omega
theorem linked_named {name : String} (h : isName name.toList = true) (apart : ∀ d ∈ rest.head?, isNameChar d = false)
    (optional : Bool) :
    Linked (Expr.linkPrinted digits optional (.named name)) rest optional (MemberOf (.named name) optional) := by
  obtain ⟨d, r, here, start, -⟩ := isName_cons h
  have name_reads (k : Nat) : Gives readName ⟨k, name.toList ++ rest⟩ name ⟨k + Text.byteLength name.toList, rest⟩ := by
    have reads := gives_readName h apart k
    rwa [String.ofList_toList] at reads
  have solid : ∀ a ∈ (name.toList ++ rest).head?, isSpace a = false := by
    rw [here]
    rintro _ ⟨⟩
    exact solid_of_isNameStart start
  cases optional with
  | true =>
    refine ⟨by rintro _ ⟨⟩; exact ⟨rfl, rfl⟩, .optional, ?_, fun _ => rfl, fun at_ e k => ?_⟩
    · show linkAt? ('?' :: '.' :: (name.toList ++ rest)) = _
      rw [here]
      unfold linkAt?
      refine if_pos ?_
      show (true && !d.isDigit) = true
      rw [not_isDigit_of_isNameStart start]
      rfl
    · refine ⟨1, .member ⟨at_, k + 2 + Text.byteLength name.toList⟩ e (.named name) true, ⟨_, _, rfl, rfl⟩, rfl, ?_⟩
      refine .skip (.skipSpaces (skipWhile_solid solid) ?_)
      refine .current? ?_
      have head : (name.toList ++ rest).head? = some d := by rw [here]; rfl
      split
      · next call => exact (isNameStart_apart start rfl (Option.some.inj (head.symm.trans call))).elim
      · next computed => exact (isNameStart_apart start rfl (Option.some.inj (head.symm.trans computed))).elim
      · refine .bind (name_reads (k + 2)) (.offset ?_)
        exact gives_pure.mpr ⟨rfl, congrArg (Cursor.mk · rest) (after_mark k name.toList)⟩
  | false =>
    refine ⟨by rintro _ ⟨⟩; exact ⟨rfl, rfl⟩, .member, ?_, fun _ => rfl, fun at_ e k => ?_⟩
    · show linkAt? ('.' :: (name.toList ++ rest)) = _
      rw [here]
      show plainLinkAt? ('.' :: d :: (r ++ rest)) = _
      have twice : d ≠ '.' := isNameStart_apart start rfl
      unfold plainLinkAt?
      split <;> simp_all
    · refine ⟨1, .member ⟨at_, k + 1 + Text.byteLength name.toList⟩ e (.named name) false, ⟨_, _, rfl, rfl⟩, rfl, ?_⟩
      refine .skip (.skipSpaces (skipWhile_solid solid) ?_)
      refine .bind (name_reads (k + 1)) (.offset ?_)
      refine gives_pure.mpr ⟨rfl, ?_⟩
      rw [Nat.add_assoc]
      rfl

theorem linked_computed {key : Expr} (comes : Comes digits key) (optional : Bool) :
    Linked (Expr.linkPrinted digits optional (.computed key)) rest optional (MemberOf (.computed key) optional) := by
  cases optional with
  | true =>
    refine ⟨by rintro _ ⟨⟩; exact ⟨rfl, rfl⟩, .optional, rfl, fun _ => rfl, fun start e k => ?_⟩
    obtain ⟨n, key', alike, reads⟩ := comes.computed rest (k + 2)
    have same : Expr.keyUnplaced (.computed key') = Expr.keyUnplaced (.computed key) := congrArg Key.computed alike
    let stop := k + 2 + Text.byteLength ('[' :: (Expr.enclosed (key.printed digits false) ++ [']']))
    refine ⟨n, .member ⟨start, stop⟩ e (.computed key') true, ⟨_, _, same, rfl⟩, rfl, ?_⟩
    refine .skip (.skipSpaces (skipWhile_solid (by rintro _ ⟨⟩; rfl)) ?_)
    refine .current? (.bind reads ?_)
    refine .offset (gives_pure.mpr ⟨rfl, ?_⟩)
    exact congrArg (Cursor.mk · rest) (after_mark k _)
  | false =>
    refine ⟨by rintro _ ⟨⟩; exact ⟨rfl, rfl⟩, .computed, rfl, fun _ => rfl, fun start e k => ?_⟩
    obtain ⟨n, key', alike, reads⟩ := comes.computed rest k
    have same : Expr.keyUnplaced (.computed key') = Expr.keyUnplaced (.computed key) := congrArg Key.computed alike
    let stop := k + Text.byteLength ('[' :: (Expr.enclosed (key.printed digits false) ++ [']']))
    refine ⟨n, .member ⟨start, stop⟩ e (.computed key') false, ⟨_, _, same, rfl⟩, rfl, ?_⟩
    exact .bind reads (.offset (gives_pure.mpr ⟨rfl, rfl⟩))

theorem rereads_readArguments {arguments : List Expr} (come : ∀ e ∈ arguments, Comes digits e) (rest : List Char) :
    Rereads readArguments (fun es => Expr.itemsUnplaced es = Expr.itemsUnplaced arguments)
      ('(' :: (Expr.itemsPrinted digits arguments ++ [')'])) rest := by
  intro k
  obtain ⟨n, es, same, reads⟩ := rereads_readItems come (.inl rfl) "Expected ',' or ')' in argument list" rest (k + 1)
  refine ⟨n + 1, es, same, .bind (gives_expect '(' k) ?_⟩
  rw [Nat.add_assoc] at reads
  exact reads

/-- What a call of an expression is. -/
def CallOf (arguments : List Expr) (optional : Bool) (e x : Expr) : Prop :=
  ∃ span es, Expr.itemsUnplaced es = Expr.itemsUnplaced arguments ∧ x = .call span e es optional

theorem linked_call {arguments : List Expr} (come : ∀ e ∈ arguments, Comes digits e) (optional : Bool) :
    Linked (Expr.mark optional ++ '(' :: (Expr.itemsPrinted digits arguments ++ [')'])) rest optional
      (CallOf arguments optional) := by
  cases optional with
  | true =>
    refine ⟨by rintro _ ⟨⟩; exact ⟨rfl, rfl⟩, .optional, rfl, fun _ => rfl, fun start e k => ?_⟩
    obtain ⟨n, es, same, reads⟩ := rereads_readArguments come rest (k + 2)
    let stop := k + 2 + Text.byteLength ('(' :: (Expr.itemsPrinted digits arguments ++ [')']))
    refine ⟨n, .call ⟨start, stop⟩ e es true, ⟨_, _, same, rfl⟩, rfl, ?_⟩
    refine .skip (.skipSpaces (skipWhile_solid (by rintro _ ⟨⟩; rfl)) ?_)
    refine .current? (.bind reads ?_)
    refine .offset (gives_pure.mpr ⟨rfl, ?_⟩)
    exact congrArg (Cursor.mk · rest) (after_mark k _)
  | false =>
    refine ⟨by rintro _ ⟨⟩; exact ⟨rfl, rfl⟩, .call, rfl, fun _ => rfl, fun start e k => ?_⟩
    obtain ⟨n, es, same, reads⟩ := rereads_readArguments come rest k
    let stop := k + Text.byteLength ('(' :: (Expr.itemsPrinted digits arguments ++ [')']))
    refine ⟨n, .call ⟨start, stop⟩ e es false, ⟨_, _, same, rfl⟩, rfl, ?_⟩
    exact .bind reads (.offset (gives_pure.mpr ⟨rfl, rfl⟩))

/-! ## Operations -/

theorem gives_skip_symbol (symbol : String) (rest : List Char) (k : Nat) :
    Gives (skip symbol.length) ⟨k, symbol.toList ++ rest⟩ () ⟨k + Text.byteLength symbol.toList, rest⟩ := by
  rw [← String.length_toList]
  exact gives_skip.mpr (Cursor.skip_append ..)

theorem symbol_unary (op : UnaryOp) (r : List Char) : (∀ d ∈ (op.symbol.toList ++ '(' :: r).head?, isSpace d = false) ∧
    updateAt? (op.symbol.toList ++ '(' :: r) = none ∧ unaryAt? (op.symbol.toList ++ '(' :: r) = some (op.symbol, op) := by
  cases op <;> exact ⟨by rintro _ ⟨⟩; rfl, rfl, rfl⟩

theorem symbol_update (op : UpdateOp) (r : List Char) : (∀ d ∈ (op.symbol.toList ++ r).head?, isSpace d = false) ∧
    updateAt? (op.symbol.toList ++ r) = some op ∧ linkAt? (op.symbol.toList ++ r) = none ∧ op.symbol.toList.length = 2 := by
  cases op <;> exact ⟨by rintro _ ⟨⟩; rfl, rfl, rfl, rfl⟩

theorem symbol_infix (op : Infix) (r : List Char) : Quiet (op.symbol.toList ++ '(' :: r) ∧
    infixAt? (op.symbol.toList ++ '(' :: r) = some (op.symbol, op) := by
  rcases op with op | op <;> cases op <;> exact ⟨⟨by rintro _ ⟨⟩; rfl, rfl, rfl⟩, rfl⟩

theorem symbol_assign {op : AssignOp} (written : op.isWritten = true) (r : List Char) :
    Quiet (op.symbol.toList ++ '(' :: r) ∧ infixAt? (op.symbol.toList ++ '(' :: r) = none ∧
      choiceAt (op.symbol.toList ++ '(' :: r) = false ∧ assignAt? (op.symbol.toList ++ '(' :: r) = some (op.symbol, op) := by
  rcases op with _ | op | op
  · exact ⟨⟨by rintro _ ⟨⟩; rfl, rfl, rfl⟩, rfl, rfl, rfl⟩
  · cases op <;> first
      | exact ⟨⟨by rintro _ ⟨⟩; rfl, rfl, rfl⟩, rfl, rfl, rfl⟩
      | cases written
  · cases op <;> exact ⟨⟨by rintro _ ⟨⟩; rfl, rfl, rfl⟩, rfl, rfl, rfl⟩

theorem isTarget_of_alike {e a : Expr} (alike : Alike e a) : a.isTarget = e.isTarget := by
  have unplaced : ∀ e : Expr, e.unplaced.isTarget = e.isTarget := by
    intro e
    cases e with
    | member _ _ _ optional => cases optional <;> rfl
    | _ => rfl
  rw [← unplaced a, ← unplaced e, alike]

theorem gives_checkUpdateTarget {e : Expr} (target : e.isTarget = true) (c : Cursor) : Gives (checkUpdateTarget e) c () c := by
  unfold Expr.isTarget at target
  split at target
  · exact gives_pure.mpr ⟨rfl, rfl⟩
  · exact gives_pure.mpr ⟨rfl, rfl⟩
  · cases target

theorem gives_checkAssignTarget {e : Expr} (target : e.isTarget = true) (c : Cursor) : Gives (checkAssignTarget e) c () c := by
  unfold Expr.isTarget at target
  split at target
  · exact gives_pure.mpr ⟨rfl, rfl⟩
  · exact gives_pure.mpr ⟨rfl, rfl⟩
  · cases target

variable {a b e : Expr}

theorem comes_unary (h : Comes digits e) (span : Span) (op : UnaryOp) : Comes digits (.unary span op e) := by
  refine fun rest closes => Rereads.whole (fun k => ?_) closes
  obtain ⟨solid, update, unary⟩ := symbol_unary op (e.printed digits false ++ [')'] ++ rest)
  obtain ⟨n, a, alike, reads⟩ := h.unary closes.stops.toQuiet (k + Text.byteLength op.symbol.toList)
  refine ⟨n + 1, .unary ⟨k, a.span.stop⟩ op a, congrArg (Expr.unary ⟨0, 0⟩ op) alike, ?_⟩
  show Gives _ ⟨k, op.symbol.toList ++ Expr.enclosed (e.printed digits false) ++ rest⟩ _
    ⟨k + Text.byteLength (op.symbol.toList ++ Expr.enclosed (e.printed digits false)), rest⟩
  rw [List.append_assoc, Text.byteLength_append, ← Nat.add_assoc]
  refine .skipSpaces (skipWhile_solid solid) (.offset ?_)
  refine .rest ?_
  dsimp only [Expr.enclosed, List.cons_append]
  rw [update, unary]
  exact .bind (gives_skip_symbol op.symbol _ _) (.bind reads (gives_pure.mpr ⟨rfl, rfl⟩))

theorem comes_infix (op : Infix) (ha : Comes digits a) (hb : Comes digits b)
    (text : e.printed digits false =
      Expr.enclosed (a.printed digits false) ++ (op.symbol.toList ++ Expr.enclosed (b.printed digits false)))
    (same : ∀ a' b', Alike a a' → Alike b b' → Alike e (op.apply a' b')) : Comes digits e := by
  intro rest closes
  have stops := closes.stops
  obtain ⟨quiet, here⟩ := symbol_infix op (b.printed digits false ++ [')'] ++ rest)
  refine (Rereads.conditional (fun k => ?_) stops.solid stops.choice |>.assignment stops.solid stops.assign).sequence
    stops.solid closes.head
  obtain ⟨n, a', alike, left⟩ := ha.unary quiet k
  obtain ⟨m, b', alike', right⟩ := hb.unary stops.toQuiet
    (k + Text.byteLength (Expr.enclosed (a.printed digits false)) + Text.byteLength op.symbol.toList)
  have terms : Terms ⟨k + Text.byteLength (Expr.enclosed (a.printed digits false)),
      op.symbol.toList ++ (Expr.enclosed (b.printed digits false) ++ rest)⟩ [(op, b')]
      ⟨k + Text.byteLength (e.printed digits false), rest⟩ := by
    have done : Terms ⟨k + Text.byteLength (e.printed digits false), rest⟩ [] _ :=
      .done (by rw [skipWhile_solid stops.solid]; exact stops.operator)
    rw [skipWhile_solid stops.solid] at done
    refine .more (n := m) (show infixAt? _ = some (op.symbol, op) from ?_) ?_ done
    · rw [skipWhile_solid quiet.solid]
      exact here
    · rw [skipWhile_solid quiet.solid, ← String.length_toList, Cursor.skip_append, text, Text.byteLength_append,
        Text.byteLength_append, ← Nat.add_assoc, ← Nat.add_assoc]
      exact right
  -- Two operands have only one ordered grouping, whatever the operator.
  obtain ⟨t, reading, ordered, i, reads⟩ := gives_readOperation left terms
  have root : (Grouping.node op (.operand a') (.operand b')).Ordered := ⟨trivial, trivial, nofun, nofun⟩
  obtain rfl := root.unique ordered reading.symm
  refine ⟨i, _, same a' b' alike alike', ?_⟩
  rw [text, List.append_assoc, List.append_assoc, ← text]
  exact reads

/-- An operand with an operator after it that is none between operands, such as an assignment or the mark of a choice. -/
theorem Standing.conditional {P : Expr → Prop} (h : Standing P text) (quiet : Quiet rest) (operator : infixAt? rest = none)
    (choice : choiceAt rest = false) : Rereads readConditional P (Expr.enclosed text) rest :=
  ((h.unary quiet).operation quiet.solid operator).conditional quiet.solid choice

theorem comes_assignment (ha : Comes digits a) (hb : Comes digits b) (target : a.isTarget = true) (span : Span) {op : AssignOp}
    (written : op.isWritten = true) : Comes digits (.assignment span op a b) := by
  intro rest closes
  have stops := closes.stops
  obtain ⟨quiet, operator, choice, here⟩ := symbol_assign written (b.printed digits false ++ [')'] ++ rest)
  refine Rereads.sequence (fun k => ?_) stops.solid closes.head
  obtain ⟨n, a', alike, left⟩ := ha.conditional quiet operator choice k
  obtain ⟨m, b', alike', right⟩ := hb.next stops
    (k + Text.byteLength (Expr.enclosed (a.printed digits false)) + Text.byteLength op.symbol.toList)
  have targets : a'.isTarget = true := (isTarget_of_alike alike).trans target
  have embeds := embeds (.ahead 0) (Nat.le_add_right n m)
  refine ⟨n + m + 1, .assignment (a'.span.hull b'.span) op a' b', ?_, ?_⟩
  · unfold Alike at *
    rw [Expr.unplaced, alike, alike', Expr.unplaced]
  · show Gives _ ⟨k, Expr.enclosed (a.printed digits false) ++ (op.symbol.toList ++ Expr.enclosed (b.printed digits false)) ++ rest⟩ _
      ⟨k + Text.byteLength (Expr.enclosed (a.printed digits false) ++
        (op.symbol.toList ++ Expr.enclosed (b.printed digits false))), rest⟩
    rw [List.append_assoc, List.append_assoc, Text.byteLength_append, Text.byteLength_append, ← Nat.add_assoc, ← Nat.add_assoc]
    refine .bind ((embeds.conditional _).again Expr.shifted_zero left) ?_
    refine .skipSpaces (skipWhile_solid quiet.solid) (.rest ?_)
    dsimp only [Expr.enclosed, List.cons_append]
    rw [here]
    refine .bind (gives_skip_symbol op.symbol _ _) (.bind (gives_checkAssignTarget targets _) ?_)
    exact .bind ((refuels (Nat.le_add_left m n)).assignment right) (gives_pure.mpr ⟨rfl, rfl⟩)

theorem comes_conditional {test : Expr} (ht : Comes digits test) (ha : Comes digits a) (hb : Comes digits b) (span : Span) :
    Comes digits (.conditional span test a b) := by
  intro rest closes
  have stops := closes.stops
  have colon : Stops (':' :: (Expr.enclosed (b.printed digits false) ++ rest)) := stops_cons (.inr (.inr (.inr (.inr rfl)))) _
  have quiet : Quiet ('?' :: (Expr.enclosed (a.printed digits false) ++ (':' :: (Expr.enclosed (b.printed digits false) ++ rest)))) :=
    ⟨by rintro _ ⟨⟩; rfl, rfl, rfl⟩
  refine (Rereads.assignment (fun k => ?_) stops.solid stops.assign).sequence stops.solid closes.head
  obtain ⟨n, test', alike, first⟩ := (ht.unary quiet).operation quiet.solid rfl k
  obtain ⟨i, a', alike₁, second⟩ := ha.next colon (k + Text.byteLength (Expr.enclosed (test.printed digits false)) + 1)
  obtain ⟨j, b', alike₂, third⟩ := hb.next stops (k + Text.byteLength (Expr.enclosed (test.printed digits false)) + 1 +
    Text.byteLength (Expr.enclosed (a.printed digits false)) + 1)
  refine ⟨n + i + j + 1, .conditional (test'.span.hull b'.span) test' a' b', ?_, ?_⟩
  · unfold Alike at *
    rw [Expr.unplaced, alike, alike₁, alike₂, Expr.unplaced]
  · show Gives _ ⟨k, Expr.enclosed (test.printed digits false) ++ '?' :: (Expr.enclosed (a.printed digits false) ++
        ':' :: Expr.enclosed (b.printed digits false)) ++ rest⟩ _ ⟨k + Text.byteLength (Expr.enclosed (test.printed digits false) ++
          '?' :: (Expr.enclosed (a.printed digits false) ++ ':' :: Expr.enclosed (b.printed digits false))), rest⟩
    simp only [List.append_assoc, List.cons_append]
    rw [readConditional_succ]
    refine .bind ((refuels (by omega)).operation first) ?_
    refine .skipSpaces (skipWhile_solid quiet.solid) (.rest ?_)
    refine .skip (.bind ((refuels (by omega)).assignment second) ?_)
    refine .skipSpaces (skipWhile_solid colon.solid) (.bind (gives_expect ':' _) ?_)
    refine .bind ((refuels (by omega)).assignment third) (gives_pure.mpr ⟨rfl, ?_⟩)
    simp only [Text.byteLength_append, Text.byteLength, Nat.add_assoc]
    rfl

theorem comes_update (h : Comes digits e) (target : e.isTarget = true) (span : Span) (op : UpdateOp) (before : Bool) :
    Comes digits (.update span op before e) := by
  intro rest closes
  obtain ⟨solid, update, link, two⟩ := symbol_update op (Expr.enclosed (e.printed digits false) ++ rest)
  obtain ⟨solid', update', link', -⟩ := symbol_update op rest
  cases before with
  | true =>
    refine Rereads.whole (fun k => ?_) closes
    obtain ⟨n, a, alike, reads⟩ := h.unary closes.stops.toQuiet (k + Text.byteLength op.symbol.toList)
    have targets : a.isTarget = true := (isTarget_of_alike alike).trans target
    refine ⟨n + 1, .update ⟨k, a.span.stop⟩ op true a, congrArg (Expr.update ⟨0, 0⟩ op true) alike, ?_⟩
    show Gives _ ⟨k, op.symbol.toList ++ Expr.enclosed (e.printed digits false) ++ rest⟩ _
      ⟨k + Text.byteLength (op.symbol.toList ++ Expr.enclosed (e.printed digits false)), rest⟩
    rw [List.append_assoc, Text.byteLength_append, ← Nat.add_assoc]
    refine .skipSpaces (skipWhile_solid solid) (.offset ?_)
    refine .rest ?_
    rw [update]
    refine .skipTo (two ▸ Cursor.skip_append ..) (.bind reads ?_)
    exact .bind (gives_checkUpdateTarget targets _) (gives_pure.mpr ⟨rfl, rfl⟩)
  | false =>
    refine Rereads.whole (.unary (fun k => ?_) (plain_open _)) closes
    obtain ⟨n, a, alike, reads⟩ := h.primary (op.symbol.toList ++ rest) k
    have targets : a.isTarget = true := (isTarget_of_alike alike).trans target
    -- The operator is no link, so that no link is read before it.
    have last : Gives (readLinks 1 a.span.start false a) ⟨k + Text.byteLength (Expr.enclosed (e.printed digits false)),
        op.symbol.toList ++ rest⟩ a ⟨k + Text.byteLength (Expr.enclosed (e.printed digits false)), op.symbol.toList ++ rest⟩ := by
      rw [readLinks_succ]
      refine .skipSpaces (skipWhile_solid solid') (.rest ?_)
      rw [link']
      exact gives_pure.mpr ⟨rfl, rfl⟩
    refine ⟨n + 1 + 1, .update ⟨a.span.start, k + Text.byteLength (Expr.enclosed (e.printed digits false) ++ op.symbol.toList)⟩
      op false a, congrArg (Expr.update ⟨0, 0⟩ op false) alike, ?_⟩
    show Gives _ ⟨k, Expr.enclosed (e.printed digits false) ++ op.symbol.toList ++ rest⟩ _
      ⟨k + Text.byteLength (Expr.enclosed (e.printed digits false) ++ op.symbol.toList), rest⟩
    rw [List.append_assoc, Text.byteLength_append, ← Nat.add_assoc, readPostfix_succ]
    refine .bind ((refuels (by omega)).primary reads) (.bind ((refuels (by omega)).links last) ?_)
    refine .rest ?_
    rw [update']
    refine .bind (gives_checkUpdateTarget targets _) ?_
    refine .skipTo (two ▸ Cursor.skip_append ..) ?_
    exact .offset (gives_pure.mpr ⟨rfl, rfl⟩)

theorem comes_sequence {items : List Expr} (come : ∀ e ∈ items, Comes digits e) (two : 2 ≤ items.length) (span : Span) :
    Comes digits (.sequence span items) := by
  intro rest closes k
  match items, two with
  | e :: e₂ :: r, _ =>
    have comma := stops_moreItems digits (e₂ :: r) closes.stops
    obtain ⟨n, a, alike, reads⟩ := (come e List.mem_cons_self).next comma k
    obtain ⟨m, es, same, later⟩ := rereads_readMore (fun e there => come e (List.mem_cons_of_mem _ there)) closes
      (k + Text.byteLength (Expr.enclosed (e.printed digits false)))
    let stop := k + Text.byteLength (Expr.itemsPrinted digits (e :: e₂ :: r))
    refine ⟨n + m + 1, .sequence ⟨a.span.start, stop⟩ (a :: es), congrArg (Expr.sequence ⟨0, 0⟩) (items_alike alike same), ?_⟩
    show Gives _ ⟨k, Expr.enclosed (e.printed digits false) ++ Expr.moreItemsPrinted digits (e₂ :: r) ++ rest⟩ _ ⟨stop, rest⟩
    rw [List.append_assoc]
    refine .bind ((refuels (Nat.le_add_right n m)).assignment reads) ?_
    refine .skipSpaces (skipWhile_solid comma.solid) (.current? ?_)
    refine .bind ((refuels (Nat.le_add_left m n)).more later) (.offset ?_)
    rw [Nat.add_assoc, ← Text.byteLength_append]
    exact gives_pure.mpr ⟨rfl, rfl⟩

/-! ## Primary expressions -/

theorem startsWithWord_of_dropLead? {word : String} (apart : Text.dropLead? word.toList text = none) :
    startsWithWord word text = false := by
  rw [startsWithWord, apart]

/-- A text that starts neither with a blank, nor with a sign, nor with a letter of a word that is an operator. -/
theorem plain_cons {d : Char} (solid : isSpace d = false) (apart : d ∉ ['!', '-', '+', '~', 't', 'v']) (r : List Char) :
    Plain (d :: r) := by
  simp only [List.mem_cons, List.not_mem_nil, or_false, not_or] at apart
  obtain ⟨not, minus, plus, tilde, typeOf, void⟩ := apart
  have other (word : List Char) (a : Char) (differs : d ≠ a) : Text.dropLead? (a :: word) (d :: r) = none :=
    if_neg fun same => differs same.symm
  refine ⟨by rintro _ ⟨⟩; exact solid, ?_, ?_⟩
  · unfold updateAt?
    split <;> simp_all
  · unfold unaryAt?
    split
    any_goals simp_all
    have noWord : startsWithWord "typeof" (d :: r) = false ∧ startsWithWord "void" (d :: r) = false := by
      constructor
      · exact startsWithWord_of_dropLead? (other "ypeof".toList 't' typeOf)
      · exact startsWithWord_of_dropLead? (other "oid".toList 'v' void)
    simp [noWord]

theorem plain_digit {d : Char} (digit : d.isDigit = true) (r : List Char) : Plain (d :: r) := by
  refine plain_cons ?_ ?_ r
  · cases blank : isSpace d with
    | false => rfl
    | true => rw [isDigit_of_isSpace blank] at digit; cases digit
  · intro there
    simp only [List.mem_cons, List.not_mem_nil, or_false] at there
    rcases there with rfl | rfl | rfl | rfl | rfl | rfl <;> cases digit

/-- A name starts with no other word. -/
theorem startsWithWord_name {word name : String} (named : isName name.toList = true)
    (apart : ∀ d ∈ rest.head?, isNameChar d = false) (solid : ∀ d ∈ word.toList, isNameChar d = true)
    (h : startsWithWord word (name.toList ++ rest) = true) : name = word := by
  obtain ⟨_, _, -, -, all⟩ := isName_cons named
  unfold startsWithWord at h
  cases lead : Text.dropLead? word.toList (name.toList ++ rest) with
  | none =>
    rw [lead] at h
    cases h
  | some r =>
    rw [lead] at h
    have ends : ∀ d ∈ r.head?, isNameChar d = false := by
      cases r with
      | nil => rintro _ ⟨⟩
      | cons c r =>
        rintro _ ⟨⟩
        exact Bool.not_eq_true' _ ▸ h
    have same := (gives_takeWhile.mp (gives_takeWhile_append all apart 0)).1
    have same' := (gives_takeWhile.mp (gives_takeWhile_append solid ends 0)).1
    rw [Text.dropLead?_eq_some.mp lead] at same
    exact String.toList_inj.mp (same.symm.trans same')

theorem plain_name {name : String} (named : isName name.toList = true) (free : name ≠ "typeof" ∧ name ≠ "void")
    (apart : ∀ d ∈ rest.head?, isNameChar d = false) : Plain (name.toList ++ rest) := by
  obtain ⟨d, r, here, start, -⟩ := isName_cons named
  have noWord (word : String) (all : word.toList.all isNameChar = true) (differs : name ≠ word) :
      startsWithWord word (name.toList ++ rest) = false :=
    Bool.eq_false_iff.mpr fun starts => differs (startsWithWord_name named apart (List.all_eq_true.mp all) starts)
  have noTypeOf := noWord "typeof" rfl free.1
  have noVoid := noWord "void" rfl free.2
  have not : d ≠ '!' := isNameStart_apart start rfl
  have minus : d ≠ '-' := isNameStart_apart start rfl
  have plus : d ≠ '+' := isNameStart_apart start rfl
  have tilde : d ≠ '~' := isNameStart_apart start rfl
  rw [here] at noTypeOf noVoid ⊢
  refine ⟨by rintro _ ⟨⟩; exact solid_of_isNameStart start, ?_, ?_⟩
  · unfold updateAt?
    split <;> simp_all
  · unfold unaryAt?
    split
    any_goals simp_all

/-- A text that is read as a primary expression stands for it, if it does not start like something else. -/
theorem Standing.of_primary {P : Expr → Prop} (plain : ∀ rest, Closes rest → Plain (text ++ rest))
    (reads : ∀ rest, Closes rest → Rereads readPrimary P text rest) : Standing P text := by
  intro rest closes
  refine Rereads.whole (.unary (fun k => ?_) (plain rest closes)) closes
  obtain ⟨n, a, holds, reads⟩ := reads rest closes k
  obtain ⟨m, reads⟩ := (Heads.of_primary reads).postfixed closes.stops.toQuiet
  exact ⟨m, a, holds, reads⟩

theorem comes_primary (shown : e.printed digits false = text) (plain : ∀ rest, Closes rest → Plain (text ++ rest))
    (reads : ∀ rest, Closes rest → Rereads readPrimary (Alike e) text rest) : Comes digits e := by
  unfold Comes
  rw [shown]
  exact .of_primary plain reads

theorem comes_array {items : List Expr} (come : ∀ e ∈ items, Comes digits e) (span : Span) :
    Comes digits (.array span items) := by
  refine comes_primary rfl (fun rest _ => ⟨by rintro _ ⟨⟩; rfl, rfl, rfl⟩) fun rest _ k => ?_
  obtain ⟨n, es, same, reads⟩ := rereads_readItems come (.inr rfl) "Expected ',' or ']' in array literal" rest (k + 1)
  refine ⟨n + 1, .array ⟨k, k + 1 + Text.byteLength (Expr.itemsPrinted digits items ++ [']'])⟩ es,
    congrArg (Expr.array ⟨0, 0⟩) same, ?_⟩
  refine .skipSpaces (skipWhile_solid (by rintro _ ⟨⟩; rfl)) ?_
  refine .offset (.rest ?_)
  refine .skip (.bind reads ?_)
  exact .offset (gives_pure.mpr ⟨rfl, congrArg (Cursor.mk · rest) (Nat.add_assoc ..)⟩)

theorem comes_object {fields : List (Key × Expr)} (keys : ∀ field ∈ fields, KeyComes digits field.1)
    (come : ∀ field ∈ fields, Comes digits field.2) (span : Span) : Comes digits (.object span fields) := by
  refine comes_primary rfl (fun rest _ => ⟨by rintro _ ⟨⟩; rfl, rfl, rfl⟩) fun rest _ k => ?_
  obtain ⟨n, fs, same, reads⟩ := rereads_readFields keys come rest (k + 1)
  refine ⟨n + 1, .object ⟨k, k + 1 + Text.byteLength (Expr.fieldsPrinted digits fields ++ ['\x7d'])⟩ fs,
    congrArg (Expr.object ⟨0, 0⟩) same, ?_⟩
  refine .skipSpaces (skipWhile_solid (by rintro _ ⟨⟩; rfl)) ?_
  refine .offset (.rest ?_)
  refine .skip (.bind reads ?_)
  exact .offset (gives_pure.mpr ⟨rfl, congrArg (Cursor.mk · rest) (Nat.add_assoc ..)⟩)

theorem comes_string (span : Span) (s : String) : Comes digits (.literal span (.string s)) := by
  refine comes_primary rfl (fun rest _ => ⟨by rintro _ ⟨⟩; rfl, rfl, rfl⟩) fun rest _ k => ?_
  refine ⟨1, .literal ⟨k, k + Text.byteLength (Expr.quoted s)⟩ (.string s), rfl, ?_⟩
  refine .skipSpaces (skipWhile_solid (by rintro _ ⟨⟩; rfl)) ?_
  refine .offset (.rest ?_)
  exact .bind (gives_readString_quoted s k) (.offset (gives_pure.mpr ⟨rfl, rfl⟩))

theorem comes_number (span : Span) {x : Float} (decimal : Expr.IsDecimal (digits x))
    (value : Number.readDecimal? (digits x) = some x) : Comes digits (.literal span (.number x)) := by
  obtain ⟨d, r, here, digit⟩ : ∃ d r, digits x = d :: r ∧ d.isDigit = true := by
    obtain ⟨whole, places, power, split, ⟨some, all⟩, -⟩ := decimal
    obtain ⟨d, r, rfl⟩ := List.exists_cons_of_ne_nil some
    exact ⟨d, r ++ (places ++ power), split, all d List.mem_cons_self⟩
  refine comes_primary rfl (fun rest _ => ?_) fun rest closes k => ?_
  · show Plain (digits x ++ rest)
    rw [here]
    exact plain_digit digit _
  · refine ⟨1, .literal ⟨k, k + Text.byteLength (digits x)⟩ (.number x), rfl, ?_⟩
    have reads := gives_readNumber decimal value closes k
    show Gives (readPrimary 1) ⟨k, digits x ++ rest⟩ _ ⟨k + Text.byteLength (digits x), rest⟩
    refine .skipSpaces (skipWhile_solid (by rw [here]; exact (plain_digit digit (r ++ rest)).solid)) ?_
    refine .offset (.rest ?_)
    rw [here] at reads ⊢
    dsimp only [List.cons_append]
    rw [if_pos (by rw [digit]; rfl)]
    exact .bind reads (.offset (gives_pure.mpr ⟨rfl, rfl⟩))

/-- A word is a primary expression unless it is an operator. -/
theorem comes_word {word : String} (shown : e.printed digits false = word.toList) (named : isName word.toList = true)
    (free : word ≠ "typeof" ∧ word ≠ "void") (meant : ∀ span, ∃ a, Alike e a ∧ wordExpr? span word = some a) :
    Comes digits e := by
  obtain ⟨d, r, here, start, -⟩ := isName_cons named
  refine comes_primary shown (fun rest closes => plain_name named free closes.apart) fun rest closes k => ?_
  obtain ⟨a, alike, meant⟩ := meant ⟨k, k + Text.byteLength word.toList⟩
  refine ⟨1, a, alike, ?_⟩
  have reads := gives_readWord named closes.apart k meant
  refine .skipSpaces (skipWhile_solid (plain_name named free closes.apart).solid) ?_
  refine .offset (.rest ?_)
  rw [here] at reads ⊢
  dsimp only [List.cons_append]
  have point : d ≠ '.' := isNameStart_apart start rfl
  have noNumber : (d.isDigit || (d == '.' && (r ++ rest).head?.any Char.isDigit)) = false := by
    rw [not_isDigit_of_isNameStart start, beq_false_of_ne point]
    rfl
  have noQuote : ¬ (d = '"' ∨ d = '\'') := by
    rintro (quote | quote)
    · exact isNameStart_apart start rfl quote
    · exact isNameStart_apart start rfl quote
  rw [noNumber, if_neg Bool.false_ne_true, if_neg noQuote, if_neg (isNameStart_apart start rfl),
    if_neg (isNameStart_apart start rfl), if_neg (isNameStart_apart start rfl), if_pos start]
  exact reads

end Grammar
end PromptScript
