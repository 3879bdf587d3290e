import PromptScript.Grammar.Expression

/-! # Groupings of operands

How operators group the operands between which they stand is a binary tree. A grouping that follows the precedences is the
only one that does among those that read the same from left to right. -/
namespace PromptScript.Grammar

namespace Infix

/-- Whether an operator may be the root of the left side of another. -/
def AllowsLeft (op root : Infix) : Prop :=
  if op = .binary .pow then op.precedence < root.precedence else op.precedence ≤ root.precedence

/-- Whether an operator may be the root of the right side of another. -/
def AllowsRight (op root : Infix) : Prop :=
  if op = .binary .pow then op.precedence ≤ root.precedence else op.precedence < root.precedence

instance (op root : Infix) : Decidable (op.AllowsLeft root) :=
  inferInstanceAs (Decidable (if op = .binary .pow then op.precedence < root.precedence else op.precedence ≤ root.precedence))

instance (op root : Infix) : Decidable (op.AllowsRight root) :=
  inferInstanceAs (Decidable (if op = .binary .pow then op.precedence ≤ root.precedence else op.precedence < root.precedence))

variable {op root p : Infix}

theorem precedence_pos (op : Infix) : 0 < op.precedence := by
  rcases op with op | op <;> cases op <;> decide

theorem rightBound_lt (op : Infix) : op.rightBound < 12 := by
  rcases op with op | op <;> cases op <;> decide

theorem rightBound_le (op : Infix) : op.rightBound ≤ op.precedence := by
  unfold rightBound
  split
  · exact Nat.sub_le ..
  · exact Nat.le_refl _

/-- Nothing but `**` binds as tightly as `**`. -/
theorem eq_pow_of_precedence (h : 12 ≤ op.precedence) : op = .binary .pow := by
  rcases op with op | op <;> cases op <;> first | rfl | exact absurd h (by decide)

theorem AllowsLeft.mono (h : op.AllowsLeft root) (tighter : root.precedence ≤ p.precedence) : op.AllowsLeft p := by
  unfold AllowsLeft at *
  by_cases power : op = .binary .pow
  · rw [if_pos power] at h ⊢
    exact Nat.lt_of_lt_of_le h tighter
  · rw [if_neg power] at h ⊢
    exact Nat.le_trans h tighter

theorem AllowsRight.mono (h : op.AllowsRight root) (tighter : root.precedence ≤ p.precedence) : op.AllowsRight p := by
  unfold AllowsRight at *
  by_cases power : op = .binary .pow
  · rw [if_pos power] at h ⊢
    exact Nat.le_trans h tighter
  · rw [if_neg power] at h ⊢
    exact Nat.lt_of_lt_of_le h tighter

theorem AllowsLeft.le (h : op.AllowsLeft root) : op.precedence ≤ root.precedence := by
  unfold AllowsLeft at h
  split at h <;> omega

theorem AllowsRight.le (h : op.AllowsRight root) : op.precedence ≤ root.precedence := by
  unfold AllowsRight at h
  split at h <;> omega

/-- Of two operators one cannot be allowed to the left of the other and have the other to its right. -/
theorem AllowsLeft.not_allowsRight (left : op.AllowsLeft p) : ¬ p.AllowsRight op := by
  intro right
  unfold AllowsLeft at left
  unfold AllowsRight at right
  split at right
  · next power =>
    -- To the right of `**` there is another, and that one has nothing as tight to its left.
    subst power
    obtain rfl : op = .binary .pow := eq_pow_of_precedence right
    rw [if_pos rfl] at left
    exact Nat.lt_irrefl _ left
  · split at left <;> omega

end Infix

/-- How operators group operands. -/
inductive Grouping where
  | operand (e : Expr)
  | node (op : Infix) (left right : Grouping)

namespace Grouping

/-- The operands and operators of a grouping from left to right. -/
def reading : Grouping → List (Expr ⊕ Infix)
  | operand e => [.inl e]
  | node op left right => left.reading ++ .inr op :: right.reading

/-- The operator at the root. -/
def root? : Grouping → Option Infix
  | operand _ => none
  | node op _ _ => some op

/-- Every operator stands in its place: to the left of it is one that binds as tightly, and to the right of it one that binds
more tightly, and the other way round for `**`. -/
def Ordered : Grouping → Prop
  | operand _ => True
  | node op left right => left.Ordered ∧ right.Ordered ∧
    (∀ q ∈ left.root?, op.AllowsLeft q) ∧ (∀ q ∈ right.root?, op.AllowsRight q)

/-- The expression that a grouping makes. -/
def expr : Grouping → Expr
  | operand e => e
  | node op left right => op.apply left.expr right.expr

variable {t t' : Grouping} {op p q : Infix}

/-- No operator binds looser than the root. -/
theorem Ordered.root_le (h : t.Ordered) (root : q ∈ t.root?) (there : .inr p ∈ t.reading) : q.precedence ≤ p.precedence := by
  induction t generalizing q with
  | operand e => cases root
  | node op left right ihl ihr =>
    obtain rfl := Option.some.inj root
    obtain ⟨leftOrdered, rightOrdered, toLeft, toRight⟩ := h
    rcases List.mem_append.mp there with inLeft | inRight
    · cases left with
      | operand e => cases List.mem_singleton.mp inLeft
      | node q l r => exact Nat.le_trans (toLeft q rfl).le (ihl leftOrdered rfl inLeft)
    · rcases List.mem_cons.mp inRight with here | inRight
      · cases here
        exact Nat.le_refl _
      · cases right with
        | operand e => cases List.mem_singleton.mp inRight
        | node q l r => exact Nat.le_trans (toRight q rfl).le (ihr rightOrdered rfl inRight)

/-- What holds of the root of a side holds of all operators of the side. -/
theorem Ordered.allowsLeft {left right : Grouping} (h : (node op left right).Ordered) (there : .inr p ∈ left.reading) :
    op.AllowsLeft p := by
  obtain ⟨ordered, -, toLeft, -⟩ := h
  cases left with
  | operand e => cases List.mem_singleton.mp there
  | node q l r => exact (toLeft q rfl).mono (ordered.root_le rfl there)

theorem Ordered.allowsRight {left right : Grouping} (h : (node op left right).Ordered) (there : .inr p ∈ right.reading) :
    op.AllowsRight p := by
  obtain ⟨-, ordered, -, toRight⟩ := h
  cases right with
  | operand e => cases List.mem_singleton.mp there
  | node q l r => exact (toRight q rfl).mono (ordered.root_le rfl there)

theorem reading_ne_nil (t : Grouping) : t.reading ≠ [] := by
  cases t with
  | operand e => exact List.cons_ne_nil _ _
  | node op left right => exact List.append_ne_nil_of_right_ne_nil _ (List.cons_ne_nil _ _)

/-- An operand reads like no operation. -/
theorem reading_operand_ne {e : Expr} {left right : Grouping} : (operand e).reading ≠ (node op left right).reading := by
  intro same
  rcases List.append_eq_cons_iff.mp same.symm with ⟨none, -⟩ | ⟨_, -, none⟩
  · exact left.reading_ne_nil none
  · exact List.append_ne_nil_of_right_ne_nil _ (List.cons_ne_nil _ _) none.symm

/-- The roots of two ordered groupings that read the same are not at different places. -/
theorem Ordered.not_split {left right left' right' : Grouping} (h : (node op left right).Ordered)
    (h' : (node p left' right').Ordered) {between : List (Expr ⊕ Infix)}
    (inLeft : left'.reading = left.reading ++ .inr op :: between)
    (inRight : right.reading = between ++ .inr p :: right'.reading) : False := by
  refine (h'.allowsLeft (p := op) ?_).not_allowsRight (h.allowsRight (p := p) ?_)
  · rw [inLeft]
    exact List.mem_append_right _ List.mem_cons_self
  · rw [inRight]
    exact List.mem_append_right _ List.mem_cons_self

/-- An ordered grouping is the only one with its reading. -/
theorem Ordered.unique (h : t.Ordered) (h' : t'.Ordered) (same : t.reading = t'.reading) : t = t' := by
  induction t generalizing t' with
  | operand e =>
    cases t' with
    | operand e' =>
      cases List.singleton_inj.mp same
      rfl
    | node op' left' right' => exact (reading_operand_ne same).elim
  | node op left right ihl ihr =>
    cases t' with
    | operand e' => exact (reading_operand_ne same.symm).elim
    | node op' left' right' =>
      rcases List.append_eq_append_iff.mp same with ⟨between, inLeft, inRight⟩ | ⟨between, inLeft, inRight⟩
      · cases between with
        | nil =>
          rw [List.append_nil] at inLeft
          obtain ⟨sameOp, sameRight⟩ := List.cons.inj inRight
          cases sameOp
          rw [ihl h.1 h'.1 inLeft.symm, ihr h.2.1 h'.2.1 sameRight]
        | cons first between =>
          obtain ⟨sameOp, further⟩ := List.cons.inj inRight
          exact (h.not_split h' (sameOp ▸ inLeft) further).elim
      · cases between with
        | nil =>
          rw [List.append_nil] at inLeft
          obtain ⟨sameOp, sameRight⟩ := List.cons.inj inRight
          cases sameOp
          rw [ihl h.1 h'.1 inLeft, ihr h.2.1 h'.2.1 sameRight.symm]
        | cons first between =>
          obtain ⟨sameOp, further⟩ := List.cons.inj inRight
          exact (h'.not_split h (sameOp ▸ inLeft) further).elim

end Grouping
end PromptScript.Grammar
