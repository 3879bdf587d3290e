import PromptScript.Proofs.Passes

/-! # Faults elsewhere

What a source says does not change when it is moved to other places of a text. Two computations do the same
`Elsewhere` if they give the same, and meet the same defects, though perhaps at other spans. Expressions that differ in
their spans alone are evaluated so. -/
namespace PromptScript

/-- The outcomes of two computations: related values in related states, or the same defect. -/
inductive Agree {S T α β : Type} (values : α → β → Prop) (fails related : S → T → Prop) :
    Except Fault α × S → Except Fault β × T → Prop
  | ok {a : α} {b : β} {s : S} {t : T} (same : values a b) (h : related s t) :
    Agree values fails related (.ok a, s) (.ok b, t)
  | error {defect : Defect} {span span' : Span} {s : S} {t : T} (h : fails s t) :
    Agree values fails related (.error ⟨defect, span⟩, s) (.error ⟨defect, span'⟩, t)

namespace Agree

variable {S T α β γ δ : Type} {values : α → β → Prop} {fails related : S → T → Prop}

theorem mono {values' : α → β → Prop} {fails' related' : S → T → Prop} {x : Except Fault α × S} {y : Except Fault β × T}
    (h : Agree values fails related x y) (value : ∀ a b, values a b → values' a b)
    (fault : ∀ s t, fails s t → fails' s t) (state : ∀ s t, related s t → related' s t) :
    Agree values' fails' related' x y := by
  cases h with
  | ok same h => exact .ok (value _ _ same) (state _ _ h)
  | error h => exact .error (fault _ _ h)

/-- What follows two computations follows their outcomes. -/
theorem bind {last : γ → δ → Prop} {after : S → T → Prop} {c : ExceptT Fault (StateM S) α} {d : ExceptT Fault (StateM T) β}
    {f : α → ExceptT Fault (StateM S) γ} {g : β → ExceptT Fault (StateM T) δ} {s : S} {t : T}
    (first : Agree values fails related (c.run.run s) (d.run.run t))
    (rest : ∀ a b s t, values a b → related s t → Agree last fails after ((f a).run.run s) ((g b).run.run t)) :
    Agree last fails after ((c >>= f).run.run s) ((d >>= g).run.run t) := by
  show Agree last fails after (match c.run.run s with | (x, s') => ExceptT.bindCont f x s')
    (match d.run.run t with | (y, t') => ExceptT.bindCont g y t')
  generalize c.run.run s = x at first
  generalize d.run.run t = y at first
  cases first with
  | ok same h => exact rest _ _ _ _ same h
  | error h => exact .error h

theorem trans {x y z : Except Fault α × S} (h : Agree Eq Eq Eq x y) (h' : Agree Eq Eq Eq y z) : Agree Eq Eq Eq x z := by
  cases h with
  | ok same h =>
    cases h' with
    | ok same' h' => exact .ok (same.trans same') (h.trans h')
  | error h =>
    cases h' with
    | error h' => exact .error (h.trans h')

end Agree

/-- From related states two computations give related values or meet the same defect, and leave related states. -/
def Elsewhere {S T α β : Type} (values : α → β → Prop) (related : S → T → Prop) (c : ExceptT Fault (StateM S) α)
    (d : ExceptT Fault (StateM T) β) : Prop :=
  ∀ s t, related s t → Agree values related related (c.run.run s) (d.run.run t)

namespace Elsewhere

variable {S T α β γ δ : Type} {values : α → β → Prop} {related : S → T → Prop} {c : ExceptT Fault (StateM S) α}
  {d : ExceptT Fault (StateM T) β}

theorem pure {a : α} {b : β} (same : values a b) :
    Elsewhere values related (Pure.pure a : ExceptT Fault (StateM S) α) (Pure.pure b : ExceptT Fault (StateM T) β) :=
  fun _ _ here => .ok same here

theorem throw (defect : Defect) (span span' : Span) :
    Elsewhere values related (MonadExcept.throw ⟨defect, span⟩ : ExceptT Fault (StateM S) α)
      (MonadExcept.throw ⟨defect, span'⟩ : ExceptT Fault (StateM T) β) :=
  fun _ _ here => .error here

theorem bind {last : γ → δ → Prop} {f : α → ExceptT Fault (StateM S) γ} {g : β → ExceptT Fault (StateM T) δ}
    (first : Elsewhere values related c d) (rest : ∀ a b, values a b → Elsewhere last related (f a) (g b)) :
    Elsewhere last related (c >>= f) (d >>= g) :=
  fun s t here => (first s t here).bind fun a b s t same => rest a b same s t

/-- What follows two computations that give the same value. -/
theorem next {last : γ → δ → Prop} {d : ExceptT Fault (StateM T) α} {f : α → ExceptT Fault (StateM S) γ}
    {g : α → ExceptT Fault (StateM T) δ} (first : Elsewhere Eq related c d)
    (rest : ∀ a, Elsewhere last related (f a) (g a)) : Elsewhere last related (c >>= f) (d >>= g) :=
  first.bind fun a _ same => same ▸ rest a

theorem get : Elsewhere related related (MonadStateOf.get : ExceptT Fault (StateM S) S)
    (MonadStateOf.get : ExceptT Fault (StateM T) T) :=
  fun _ _ here => .ok here here

theorem set {s : S} {t : T} (h : related s t) : Elsewhere Eq related (MonadStateOf.set s : ExceptT Fault (StateM S) PUnit)
    (MonadStateOf.set t : ExceptT Fault (StateM T) PUnit) :=
  fun _ _ _ => .ok rfl h

theorem modify {f : S → S} {g : T → T} (h : ∀ s t, related s t → related (f s) (g t)) :
    Elsewhere Eq related (modify f : ExceptT Fault (StateM S) Unit) (modify g : ExceptT Fault (StateM T) Unit) :=
  fun s t here => .ok rfl (h s t here)

/-! ### From one state -/

theorem refl (c : ExceptT Fault (StateM S) α) : Elsewhere Eq Eq c c := by
  rintro s _ rfl
  obtain ⟨_ | a, t⟩ := c.run.run s
  · exact .error rfl
  · exact .ok rfl rfl

theorem symm {d : ExceptT Fault (StateM S) α} (h : Elsewhere Eq Eq c d) : Elsewhere Eq Eq d c := by
  rintro s _ rfl
  have both := h s s rfl
  generalize c.run.run s = x at both ⊢
  generalize d.run.run s = y at both ⊢
  cases both with
  | ok same h => exact .ok same.symm h.symm
  | error h => exact .error h.symm

theorem trans {d e : ExceptT Fault (StateM S) α} (h : Elsewhere Eq Eq c d) (h' : Elsewhere Eq Eq d e) :
    Elsewhere Eq Eq c e := by
  rintro s _ rfl
  exact (h s s rfl).trans (h' s s rfl)

end Elsewhere

/-! ## Expressions without their spans -/

namespace Expr

mutual

/-- The expression without its spans. -/
def unplaced : Expr → Expr
  | literal _ value => literal ⟨0, 0⟩ value
  | identifier _ name => identifier ⟨0, 0⟩ name
  | array _ items => array ⟨0, 0⟩ (itemsUnplaced items)
  | object _ fields => object ⟨0, 0⟩ (fieldsUnplaced fields)
  | sequence _ items => sequence ⟨0, 0⟩ (itemsUnplaced items)
  | unary _ op e => unary ⟨0, 0⟩ op (unplaced e)
  | binary _ op a b => binary ⟨0, 0⟩ op (unplaced a) (unplaced b)
  | logical _ op a b => logical ⟨0, 0⟩ op (unplaced a) (unplaced b)
  | assignment _ op target value => assignment ⟨0, 0⟩ op (unplaced target) (unplaced value)
  | update _ op before e => update ⟨0, 0⟩ op before (unplaced e)
  | member _ base key optional => member ⟨0, 0⟩ (unplaced base) (keyUnplaced key) optional
  | conditional _ test a b => conditional ⟨0, 0⟩ (unplaced test) (unplaced a) (unplaced b)
  | call _ callee arguments optional => call ⟨0, 0⟩ (unplaced callee) (itemsUnplaced arguments) optional
  | chain _ e => chain ⟨0, 0⟩ (unplaced e)

def itemsUnplaced : List Expr → List Expr
  | [] => []
  | e :: r => unplaced e :: itemsUnplaced r

def fieldsUnplaced : List (Key × Expr) → List (Key × Expr)
  | [] => []
  | (key, e) :: r => (keyUnplaced key, unplaced e) :: fieldsUnplaced r

def keyUnplaced : Key → Key
  | .named name => .named name
  | .computed e => .computed (unplaced e)

end

theorem name?_unplaced (e : Expr) : e.unplaced.name? = e.name? := by cases e <;> rfl

theorem isAssignment_unplaced (e : Expr) : e.unplaced.isAssignment = e.isAssignment := by cases e <;> rfl

/-- Messages describe an expression without its spans. -/
theorem describe_unplaced : ∀ e : Expr, e.unplaced.describe = e.describe
  | literal .. | identifier .. | array .. | object .. | sequence .. | unary .. | binary .. | logical .. | assignment ..
  | update .. | conditional .. => rfl
  | member _ base (.named _) _ | member _ base (.computed _) _ => by
    simp only [unplaced, keyUnplaced, describe, describe_unplaced base]
  | call _ callee _ _ => by simp only [unplaced, describe, describe_unplaced callee]
  | chain _ e => describe_unplaced e

variable {σ : Type} (host : Host σ)

/-- What a write at a path gives does not depend on where its faults lie. -/
theorem writeAt_elsewhere (missing missing' : Value → Fault) {compute compute' : Value → Except Fault Value}
    (missed : ∀ key, (missing key).defect = (missing' key).defect)
    (computed : ∀ v, (compute v).mapError Fault.defect = (compute' v).mapError Fault.defect) (path : List Value) (v : Value) :
    (writeAt missing compute v path).mapError Fault.defect = (writeAt missing' compute' v path).mapError Fault.defect := by
  induction path generalizing v with
  | nil =>
    have here := computed v
    unfold writeAt
    generalize compute v = x at here ⊢
    generalize compute' v = y at here ⊢
    match x, y, here with
    | .error _, .error _, here => exact congrArg Except.error (Except.error.inj here)
    | .ok _, .ok _, rfl => rfl
  | cons key path ih =>
    unfold writeAt
    split
    · exact congrArg Except.error (missed key)
    · next child _ =>
      have here := ih child
      generalize writeAt missing compute child path = x at here ⊢
      generalize writeAt missing' compute' child path = y at here ⊢
      match x, y, here with
      | .error _, .error _, here => exact congrArg Except.error (Except.error.inj here)
      | .ok (old, new, child'), .ok _, rfl =>
        dsimp only [Bind.bind, Except.bind]
        split
        · rfl
        · exact congrArg Except.error (missed key)

/-- Two evaluations on one machine that do the same, but for the places of faults. -/
abbrev Same {α : Type} (c d : Eval σ α) : Prop := Elsewhere Eq Eq c d

theorem same_modifyPlace {target target' : Expr} (root : String) (path : List Value)
    (label : placeLabel target root = placeLabel target' root) {compute compute' : Value → Except Fault Value}
    (computed : ∀ v, (compute v).mapError Fault.defect = (compute' v).mapError Fault.defect) :
    Same (σ := σ) (modifyPlace .inScope target root path compute) (modifyPlace .inScope target' root path compute') := by
  refine (Elsewhere.refl _).next fun found => ?_
  cases found with
  | none => exact .throw _ _ _
  | some value =>
    have here := writeAt_elsewhere (fun key => ⟨.propertyNotExists (placeLabel target root) key.toText, target.span⟩)
      (fun key => ⟨.propertyNotExists (placeLabel target' root) key.toText, target'.span⟩)
      (fun key => by rw [label]) computed path value
    dsimp only
    generalize writeAt _ compute value path = x at here ⊢
    generalize writeAt _ compute' value path = y at here ⊢
    match x, y, here with
    | .error ⟨_, _⟩, .error ⟨_, _⟩, here =>
      cases Except.error.inj here
      exact .throw _ _ _
    | .ok _, .ok _, rfl => exact .refl _

theorem placeLabel_unplaced (target : Expr) (root : String) : placeLabel target.unplaced root = placeLabel target root := by
  cases target with
  | member _ base _ _ => exact describe_unplaced base
  | _ => rfl

theorem same_writePlace (target : Expr) (place : Option (String × List Value)) (v : Value) :
    Same (σ := σ) (writePlace .inScope target.unplaced place v) (writePlace .inScope target place v) := by
  cases place with
  | none => exact .refl _
  | some place => exact (same_modifyPlace _ _ (placeLabel_unplaced target _) fun _ => rfl).next fun _ => .refl _

theorem same_checkDeclared (target : Expr) :
    Same (σ := σ) (checkDeclared .inScope target.unplaced) (checkDeclared .inScope target) := by
  cases target with
  | identifier span name =>
    refine (Elsewhere.refl _).next fun found => ?_
    split
    · exact .refl _
    · exact .throw _ _ _
  | _ => exact .refl _

mutual

/-- **The value of an expression does not depend on its spans.** -/
theorem same_link : ∀ e : Expr, Same (link .inScope host e.unplaced) (link .inScope host e)
  | literal _ _ | identifier _ _ => by
    unfold unplaced link
    exact .refl _
  | array _ items => (same_evalItems items).next fun _ => .refl _
  | object _ fields => (same_evalFields fields []).next fun _ => .refl _
  | sequence _ items => (same_evalLast items .undefined).next fun _ => .refl _
  | unary _ _ e => (same_link e).next fun _ => .refl _
  | binary _ _ a b => (same_link a).next fun _ => (same_link b).next fun _ => .refl _
  | logical _ op a b => (same_link a).next fun left => by
    dsimp only
    split
    · exact .refl _
    · exact (same_link b).next fun _ => .refl _
  | conditional _ test a b => (same_link test).next fun holds => by
    split
    · exact (same_link a).next fun _ => .refl _
    · exact (same_link b).next fun _ => .refl _
  | assignment _ op target value => by
    have writes (v : Value) : Same (do
        writePlace .inScope target.unplaced (← place? .inScope host target.unplaced) v
        return some v : Eval σ _) (do
        writePlace .inScope target (← place? .inScope host target) v
        return some v : Eval σ _) :=
      (same_place? target).next fun place => (same_writePlace target place v).next fun _ => .refl _
    unfold unplaced link
    cases op with
    | assign =>
      cases target with
      | identifier _ name => exact (same_link value).next fun _ => .refl _
      | _ => exact (same_link value).next fun _ => writes _
    | binary op =>
      exact (same_checkDeclared target).next fun _ => (same_link target).next fun _ =>
        (same_link value).next fun _ => writes _
    | logical op =>
      refine (same_checkDeclared target).next fun _ => (same_link target).next fun current => ?_
      dsimp only
      split
      · exact .refl _
      · exact (same_link value).next fun _ => writes _
  | update _ op before e => (same_place? e).next fun place => by
    cases place with
    | none =>
      dsimp only
      rw [describe_unplaced]
      exact .throw _ _ _
    | some place =>
      refine (same_modifyPlace _ _ (placeLabel_unplaced e _) fun v => ?_).next fun _ => .refl _
      cases v <;> rfl
  | member _ base key optional => (same_link base).next fun found => by
    cases found with
    | none => exact .refl _
    | some target =>
      dsimp only
      split
      · exact .refl _
      · refine (same_evalKey key).next fun name => (Elsewhere.refl (readMember? target name)).next fun found => ?_
        cases found with
        | none =>
          dsimp only
          rw [describe_unplaced]
          exact .throw _ _ _
        | some v => exact .refl _
  | call _ callee arguments optional => (same_link callee).next fun found => by
    cases found with
    | none => exact .refl _
    | some function =>
      dsimp only
      split
      · exact .refl _
      · refine (same_evalItems arguments).next fun args => (Elsewhere.refl (callFunction? host function args)).next fun answer => ?_
        match answer with
        | none =>
          dsimp only
          rw [describe_unplaced]
          exact .throw _ _ _
        | some (.error _) => exact .throw _ _ _
        | some (.ok v) => exact .refl _
  | chain _ e => (same_link e).next fun _ => .refl _

theorem same_evalItems : ∀ items : List Expr, Same (evalItems .inScope host (itemsUnplaced items)) (evalItems .inScope host items)
  | [] => .refl _
  | e :: r => (same_link e).next fun _ => (same_evalItems r).next fun _ => .refl _

theorem same_evalLast : ∀ (items : List Expr) (last : Value),
    Same (evalLast .inScope host (itemsUnplaced items) last) (evalLast .inScope host items last)
  | [], _ => .refl _
  | e :: r, _ => (same_link e).next fun _ => same_evalLast r _

theorem same_evalFields : ∀ (fields : List (Key × Expr)) (acc : List (String × Value)),
    Same (evalFields .inScope host (fieldsUnplaced fields) acc) (evalFields .inScope host fields acc)
  | [], _ => .refl _
  | (key, e) :: r, _ => (same_evalKey key).next fun _ => (same_link e).next fun _ => same_evalFields r _

theorem same_evalKey : ∀ key : Key, Same (evalKey .inScope host (keyUnplaced key)) (evalKey .inScope host key)
  | .named _ => .refl _
  | .computed e => (same_link e).next fun _ => .refl _

theorem same_place? : ∀ target : Expr, Same (place? .inScope host target.unplaced) (place? .inScope host target)
  | identifier _ _ => .refl _
  | member _ base key false => (same_place? base).next fun place => by
    cases place with
    | none => exact .refl _
    | some place => exact (same_evalKey key).next fun _ => .refl _
  | member _ _ _ true | literal _ _ | array _ _ | object _ _ | sequence _ _ | unary _ _ _ | binary _ _ _ _
  | logical _ _ _ _ | conditional _ _ _ _ | assignment _ _ _ _ | update _ _ _ _ | call _ _ _ _ | chain _ _ => .refl _

end

/-- Expressions that differ in their spans alone have one value. -/
def Placeless (eval : Evaluator σ) : Prop := ∀ e e' : Expr, e.unplaced = e'.unplaced → Same (eval e) (eval e')

theorem placeless_eval : Placeless (eval host) := by
  intro e e' same
  have left : Same (eval host e.unplaced) (eval host e) := (same_link host e).next fun _ => .refl _
  have right : Same (eval host e'.unplaced) (eval host e') := (same_link host e').next fun _ => .refl _
  exact left.symm.trans (same ▸ right)

end Expr
end PromptScript
