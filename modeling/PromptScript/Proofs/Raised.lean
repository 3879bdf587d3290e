import PromptScript.Pass.Walk

/-! # What passes fail with

Which faults may end a computation, and in which states they leave it. Those of evaluations are of a few kinds.
Whatever is true of the common faults and of those of evaluations is true of all faults of the parts of a pass. -/
namespace PromptScript

variable {σ S α β : Type} {refers : Bool}

/-- Whether a defect is that of a tag in a place where it must not stand. A reference may stand nowhere, unless it is
said that there are some. -/
def Defect.isMisplaced (refers : Bool) : Defect → Bool
  | messageTagInsideMessage | contentTagInsideContent | stepTagInsideStep => true
  | unresolvedReference => !refers
  | _ => false

/-- Whether a defect is that of a tool call outside of the messages of the assistant, or of an attribute that is not
written out. -/
def Defect.isUnsettled : Defect → Bool
  | invalidToolCallPlacement | invalidStaticAttribute _ => true
  | _ => false

/-- Whether a defect is one that an evaluation may have. -/
def Defect.isEvaluative : Defect → Bool
  | variableNotDeclared _ | propertyNotExists _ _ | invalidUpdate _ | notAFunction _ | functionCallFailed _ => true
  | _ => false

/-- Whether a defect is one that any part of a pass may have: neither that of a tag in a place where it must not stand,
nor that of a name that is not declared. -/
def Defect.isCommon (refers : Bool) : Defect → Bool
  | variableNotDeclared _ => false
  | defect => !defect.isMisplaced refers

theorem Defect.misplaced_of_common {defect : Defect} (h : defect.isCommon refers = true) :
    defect.isMisplaced refers = false := by
  cases defect with
  | variableNotDeclared => rfl
  | _ => exact (Bool.not_eq_true' _).mp h

theorem Defect.misplaced_of_evaluative {defect : Defect} (h : defect.isEvaluative = true) :
    defect.isMisplaced refers = false := by
  cases defect <;> first | rfl | cases h

theorem Defect.unsettled_of_evaluative {defect : Defect} (h : defect.isEvaluative = true) :
    defect.isUnsettled = false := by
  cases defect <;> first | rfl | cases h

/-- All faults that may end a computation have some property, in the states in which they leave it. -/
def Raises (p : Fault → S → Prop) (c : ExceptT Fault (StateM S) α) : Prop :=
  ∀ s fault t, c.run.run s = (.error fault, t) → p fault t

/-- A computation that has faults of evaluations only. -/
abbrev Evaluates (c : ExceptT Fault (StateM S) α) : Prop := Raises (fun fault _ => fault.defect.isEvaluative = true) c

/-- A computation that finds no tag misplaced. -/
abbrev Mild (refers : Bool) (c : ExceptT Fault (StateM S) α) : Prop :=
  Raises (fun fault _ => fault.defect.isMisplaced refers = false) c

namespace Raises

variable {p : Fault → S → Prop} {c : ExceptT Fault (StateM S) α}

theorem pure (a : α) : Raises p (Pure.pure a : ExceptT Fault (StateM S) α) := fun _ _ _ ran => nomatch ran

theorem throw {fault : Fault} (h : ∀ s, p fault s) : Raises p (MonadExcept.throw fault : ExceptT Fault (StateM S) α) := by
  intro s other t ran
  cases ran
  exact h s

/-- A fault of two steps is one of the first, or of the second where the first has come to an end. -/
theorem run_bind_eq_error {f : α → ExceptT Fault (StateM S) β} {s t : S} {fault : Fault} :
    (c >>= f).run.run s = (.error fault, t) ↔ c.run.run s = (.error fault, t) ∨
      ∃ a s₁, c.run.run s = (.ok a, s₁) ∧ (f a).run.run s₁ = (.error fault, t) := by
  show (match c.run.run s with | (x, s₁) => (ExceptT.bindCont f x).run s₁) = (.error fault, t) ↔ _
  obtain ⟨x, s₁⟩ := c.run.run s
  cases x with
  | error other =>
    refine ⟨fun ran => .inl ?_, fun ran => ?_⟩
    · cases ran
      rfl
    · rcases ran with ran | ⟨_, _, ran, -⟩
      · cases ran
        rfl
      · cases ran
  | ok a =>
    refine ⟨fun ran => .inr ⟨a, s₁, rfl, ran⟩, fun ran => ?_⟩
    rcases ran with ran | ⟨_, _, ran, later⟩
    · cases ran
    · cases ran
      exact later

theorem bind {f : α → ExceptT Fault (StateM S) β} (hc : Raises p c) (hf : ∀ a, Raises p (f a)) :
    Raises p (c >>= f) := by
  intro s fault t ran
  rcases run_bind_eq_error.mp ran with first | ⟨a, s₁, -, later⟩
  · exact hc s fault t first
  · exact hf a s₁ fault t later

/-- What follows two steps may make use of what the first of them gives. -/
theorem bind_bind {γ : Type} {d : α → ExceptT Fault (StateM S) β} {f : α → β → ExceptT Fault (StateM S) γ}
    (hd : Raises p (c >>= d)) (hf : ∀ a b, Raises p (f a b)) : Raises p (c >>= fun a => d a >>= f a) := by
  intro s fault t ran
  rcases run_bind_eq_error.mp ran with first | ⟨a, s₁, ran, later⟩
  · exact hd s fault t (run_bind_eq_error.mpr (.inl first))
  · rcases run_bind_eq_error.mp later with second | ⟨b, s₂, -, last⟩
    · exact hd s fault t (run_bind_eq_error.mpr (.inr ⟨a, s₁, ran, second⟩))
    · exact hf a b s₂ fault t last

theorem ite {condition : Prop} [Decidable condition] {d : ExceptT Fault (StateM S) α} (hc : Raises p c)
    (hd : Raises p d) : Raises p (if condition then c else d) := by
  split
  · exact hc
  · exact hd

theorem get : Raises p (MonadStateOf.get : ExceptT Fault (StateM S) S) := fun _ _ _ ran => nomatch ran

theorem set (s : S) : Raises p (MonadStateOf.set s : ExceptT Fault (StateM S) PUnit) := fun _ _ _ ran => nomatch ran

theorem modify (f : S → S) : Raises p (modify f : ExceptT Fault (StateM S) PUnit) := fun _ _ _ ran => nomatch ran

end Raises

/-! ## Evaluations -/

namespace Expr

variable (host : Host σ)

theorem evaluates_readName (name : String) : Evaluates (readName .inScope host name) :=
  .ite (.bind .get fun _ => .pure _) (.bind (.bind .get fun _ => .pure _) fun _ => .pure _)

theorem evaluates_readMember? (object key : Value) : Evaluates (readMember? object key : Eval σ _) :=
  .bind .get fun _ => .bind (.set _) fun _ => .pure _

theorem evaluates_callFunction? (function : Value) (args : List Value) : Evaluates (callFunction? host function args) := by
  cases function with
  | callable identity => exact .bind .get fun _ => .bind (.set _) fun _ => .pure _
  | _ => exact .pure _

/-- A path into a value fails where a step of it is missing, or the new value is. -/
theorem evaluates_of_writeAt {missing : Value → Fault} {compute : Value → Except Fault Value}
    (none : ∀ key, (missing key).defect.isEvaluative = true)
    (computed : ∀ v fault, compute v = .error fault → fault.defect.isEvaluative = true) (path : List Value) :
    ∀ (v : Value) (fault : Fault), writeAt missing compute v path = .error fault → fault.defect.isEvaluative = true := by
  induction path with
  | nil =>
    intro v fault failed
    unfold writeAt at failed
    cases new : compute v with
    | error other =>
      rw [new] at failed
      cases failed
      exact computed v fault new
    | ok w => rw [new] at failed; cases failed
  | cons key path ih =>
    intro v fault failed
    unfold writeAt at failed
    split at failed
    · cases failed
      exact none key
    · next child found =>
      cases written : writeAt missing compute child path with
      | error other =>
        rw [written] at failed
        cases failed
        exact ih child fault written
      | ok result =>
        obtain ⟨old, new, child'⟩ := result
        rw [written] at failed
        dsimp only [Bind.bind, Except.bind] at failed
        split at failed
        · cases failed
        · cases failed
          exact none key

theorem evaluates_modifyPlace (target : Expr) (root : String) (path : List Value) {compute : Value → Except Fault Value}
    (computed : ∀ v fault, compute v = .error fault → fault.defect.isEvaluative = true) :
    Evaluates (modifyPlace .inScope target root path compute : Eval σ _) := by
  refine .bind (.bind .get fun _ => .pure _) fun found => ?_
  cases found with
  | none => exact .throw fun _ => rfl
  | some value =>
    dsimp only
    split
    · next fault failed => exact .throw fun _ => evaluates_of_writeAt (fun _ => rfl) computed path _ _ failed
    · exact .bind (.modify _) fun _ => .pure _

theorem evaluates_writePlace (target : Expr) (place : Option (String × List Value)) (v : Value) :
    Evaluates (writePlace .inScope target place v : Eval σ _) := by
  cases place with
  | none => exact .pure _
  | some place => exact .bind (evaluates_modifyPlace target place.1 place.2 nofun) fun _ => .pure _

theorem evaluates_checkDeclared (target : Expr) : Evaluates (checkDeclared .inScope target : Eval σ _) := by
  cases target with
  | identifier span name =>
    exact .bind (.bind .get fun _ => .pure _) fun found => .ite (.pure _) (.throw fun _ => rfl)
  | _ => exact .pure _

mutual

/-- Faults of evaluations are of the kinds that evaluations have. -/
theorem evaluates_link : ∀ e : Expr, Evaluates (link .inScope host e)
  | literal _ _ => .pure _
  | identifier _ name => .bind (evaluates_readName host name) fun _ => .pure _
  | array _ items => .bind (evaluates_evalItems items) fun _ => .pure _
  | object _ fields => .bind (evaluates_evalFields fields []) fun _ => .pure _
  | sequence _ items => .bind (evaluates_evalLast items .undefined) fun _ => .pure _
  | unary _ _ e => .bind (evaluates_link e) fun _ => .pure _
  | binary _ _ a b => .bind (evaluates_link a) fun _ => .bind (evaluates_link b) fun _ => .pure _
  | logical _ op a b => .bind (evaluates_link a) fun _ => .ite (.pure _) (.bind (evaluates_link b) fun _ => .pure _)
  | conditional _ test a b => .bind (evaluates_link test) fun _ =>
    .ite (.bind (evaluates_link a) fun _ => .pure _) (.bind (evaluates_link b) fun _ => .pure _)
  | assignment _ op target value => by
    have writes (v : Value) : Evaluates (do
        writePlace .inScope target (← place? .inScope host target) v
        return some v : Eval σ _) :=
      .bind (evaluates_place? target) fun place => .bind (evaluates_writePlace target place v) fun _ => .pure _
    cases op with
    | assign =>
      have plain (v : Value) (name : String) : Evaluates (do
          Variables.inScope.set name v
          return some v : Eval σ _) := .bind (.modify _) fun _ => .pure _
      unfold link
      dsimp only
      split
      · exact .bind (evaluates_link value) fun v => plain _ _
      · exact .bind (evaluates_link value) fun v => writes _
    | binary op =>
      exact .bind (evaluates_checkDeclared target) fun _ => .bind (evaluates_link target) fun _ =>
        .bind (evaluates_link value) fun _ => writes _
    | logical op =>
      exact .bind (evaluates_checkDeclared target) fun _ => .bind (evaluates_link target) fun _ =>
        .ite (.pure _) (.bind (evaluates_link value) fun _ => writes _)
  | update _ op before e => .bind (evaluates_place? e) fun place => by
    cases place with
    | none => exact .throw fun _ => rfl
    | some place =>
      refine .bind (evaluates_modifyPlace e place.1 place.2 fun v fault failed => ?_) fun _ => .pure _
      cases v with
      | number => cases failed
      | _ => cases failed; rfl
  | member span base key optional => .bind (evaluates_link base) fun found => by
    cases found with
    | none => exact .pure _
    | some target =>
      refine .ite (.pure _) (.bind (evaluates_evalKey key) fun name => .bind (evaluates_readMember? target name) fun found => ?_)
      cases found with
      | none => exact .throw fun _ => rfl
      | some v => exact .pure _
  | call span callee arguments optional => .bind (evaluates_link callee) fun found => by
    cases found with
    | none => exact .pure _
    | some function =>
      refine .ite (.pure _) (.bind (evaluates_evalItems arguments) fun args =>
        .bind (evaluates_callFunction? host function args) fun answer => ?_)
      match answer with
      | none => exact .throw fun _ => rfl
      | some (.error _) => exact .throw fun _ => rfl
      | some (.ok v) => exact .pure _
  | chain _ e => .bind (evaluates_link e) fun _ => .pure _

theorem evaluates_evalItems : ∀ items : List Expr, Evaluates (evalItems .inScope host items)
  | [] => .pure _
  | e :: r => .bind (evaluates_link e) fun _ => .bind (evaluates_evalItems r) fun _ => .pure _

theorem evaluates_evalLast : ∀ (items : List Expr) (last : Value), Evaluates (evalLast .inScope host items last)
  | [], _ => .pure _
  | e :: r, _ => .bind (evaluates_link e) fun _ => evaluates_evalLast r _

theorem evaluates_evalFields : ∀ (fields : List (Key × Expr)) (acc : List (String × Value)),
    Evaluates (evalFields .inScope host fields acc)
  | [], _ => .pure _
  | (key, e) :: r, _ => .bind (evaluates_evalKey key) fun _ => .bind (evaluates_link e) fun _ => evaluates_evalFields r _

theorem evaluates_evalKey : ∀ key : Key, Evaluates (evalKey .inScope host key)
  | .named _ => .pure _
  | .computed e => .bind (evaluates_link e) fun _ => .pure _

theorem evaluates_place? : ∀ target : Expr, Evaluates (place? .inScope host target)
  | identifier _ _ => .pure _
  | member _ base key false => .bind (evaluates_place? base) fun place => by
    cases place with
    | none => exact .pure _
    | some place => exact .bind (evaluates_evalKey key) fun _ => .pure _
  | member _ _ _ true | literal _ _ | array _ _ | object _ _ | sequence _ _ | unary _ _ _ | binary _ _ _ _
  | logical _ _ _ _ | conditional _ _ _ _ | assignment _ _ _ _ | update _ _ _ _ | call _ _ _ _ | chain _ _ => .pure _

end

theorem evaluates_eval (e : Expr) : Evaluates (eval host e) := .bind (evaluates_link host e) fun _ => .pure _

/-- No evaluation finds a tag misplaced. -/
theorem mild_eval (e : Expr) : Mild refers (eval host e) :=
  fun s fault t failed => Defect.misplaced_of_evaluative (evaluates_eval host e s fault t failed)

end Expr

/-! ## Parts of passes -/

namespace Pass

/-- A property of all the faults that any part of a pass may have. -/
def Common (refers : Bool) (p : Fault → PassState σ → Prop) : Prop :=
  ∀ fault s, fault.defect.isCommon refers = true → p fault s

/-- A property of those of them that have nothing to do with tool calls nor with what has to be written out. -/
def Ordinary (refers : Bool) (p : Fault → PassState σ → Prop) : Prop :=
  ∀ fault s, fault.defect.isCommon refers = true → fault.defect.isUnsettled = false → p fault s

theorem Common.ordinary {p : Fault → PassState σ → Prop} (common : Common refers p) : Ordinary refers p :=
  fun fault s usual _ => common fault s usual

theorem common_mild : Common refers fun fault (_ : PassState σ) => fault.defect.isMisplaced refers = false :=
  fun _ _ => Defect.misplaced_of_common

theorem raises_evaluate {eval : Evaluator σ} {q : Fault → Prop} (evals : ∀ e, Raises (fun fault _ => q fault) (eval e))
    (e : Expr) : Raises (fun fault _ => q fault) (evaluate eval e) := by
  refine .bind .get fun s => ?_
  generalize ran : (eval e).run.run s.machine = x
  obtain ⟨result, machine⟩ := x
  refine .bind (.set _) fun _ => ?_
  cases result with
  | error fault => exact .throw fun _ => evals e _ _ _ ran
  | ok v => exact .pure v

variable {p : Fault → PassState σ → Prop} (options : Options)

theorem raises_addSegment (segment : Segment) : Raises p (addSegment segment : Pass σ Unit) := .modify _

theorem raises_addContent (content : Content) (span : Span) : Raises p (addContent content span : Pass σ Unit) := .modify _

theorem raises_takeParagraph : Raises p (takeParagraph : Pass σ (Option Paragraph)) :=
  .bind .get fun _ => .bind (.set _) fun _ => .pure _

theorem raises_flushPassage : Raises p (flushPassage options : Pass σ Unit) := by
  refine .bind raises_takeParagraph fun paragraph => ?_
  cases paragraph with
  | none => exact .pure _
  | some paragraph => exact raises_addContent _ _

theorem raises_takeContent : Raises p (takeContent options : Pass σ (List (Content × Span))) :=
  .bind (raises_flushPassage options) fun _ => .bind .get fun _ => .bind (.set _) fun _ => .pure _

section Ordinary

variable (ordinary : Ordinary refers p)

include ordinary

theorem raises_need (v : Option α) {defect : Defect} (span : Span) (usual : defect.isCommon refers = true)
    (settled : defect.isUnsettled = false) :
    Raises p (need v defect span : Pass σ α) := by
  cases v with
  | none => exact .throw fun _ => ordinary _ _ usual settled
  | some a => exact .pure a

theorem raises_putValue (around : Surroundings) (span : Span) (name : Option String) (v : Value) :
    Raises p (putValue options around span name v : Pass σ Unit) := by
  have adds (files : List Attachment) :
      Raises p (files.forM fun file => addContent file.toContent span : Pass σ PUnit) := by
    induction files with
    | nil => exact .pure _
    | cons file files ih => exact .bind (raises_addContent _ _) fun _ => ih
  unfold putValue
  split
  · exact raises_addSegment _
  · refine .ite ?_ (.bind (raises_flushPassage options) fun _ => adds _)
    split
    · exact raises_addSegment _
    · exact .throw fun _ => ordinary _ _ rfl rfl

/-- A content tag is misplaced only within a content tag. -/
theorem raises_openContent {around : Surroundings} (placed : around.inContent = false) (span : Span)
    (kind : Option ContentKind) (attributes : Attributes) :
    Raises p (openContent around span kind attributes : Pass σ (ContentKind × Attributes)) := by
  unfold openContent
  rw [placed]
  cases kind with
  | some kind => exact .pure _
  | none => exact .bind (raises_need ordinary _ _ rfl rfl) fun _ => .bind (raises_need ordinary _ _ rfl rfl) fun _ => .pure _

theorem raises_argumentsOf (span : Span) (attributes : Attributes) :
    Raises p (argumentsOf span attributes : Pass σ Value) := by
  unfold argumentsOf
  split
  · exact .pure _
  · exact .bind (raises_need ordinary _ _ rfl rfl) fun _ => .pure _
  · exact .pure _

theorem raises_itemOf (span : Span) (kind : ContentKind) (text : Option Paragraph) (attributes : Attributes) :
    Raises p (itemOf options span kind text attributes : Pass σ (Option Content)) := by
  cases kind with
  | text => exact .pure _
  | image => exact .bind (raises_need ordinary _ _ rfl rfl) fun _ => .pure _
  | file => exact .bind (raises_need ordinary _ _ rfl rfl) fun _ => .bind (raises_need ordinary _ _ rfl rfl) fun _ => .pure _
  | toolCall =>
    exact .bind (raises_need ordinary _ _ rfl rfl) fun _ => .bind (raises_need ordinary _ _ rfl rfl) fun _ =>
      .bind (raises_argumentsOf ordinary _ _) fun _ => .pure _

theorem raises_closeContent (span : Span) (kind : ContentKind) (attributes : Attributes) :
    Raises p (closeContent options span kind attributes : Pass σ Unit) := by
  refine .bind raises_takeParagraph fun text => .bind (raises_itemOf options ordinary span kind text attributes) fun item => ?_
  cases item with
  | none => exact .pure _
  | some item => exact raises_addContent _ _

theorem raises_responseValue (span : Span) (hasSchema : Bool) (response : List Content) :
    Raises p (responseValue span hasSchema response : Pass σ Value) :=
  .ite (.bind (raises_need ordinary _ _ rfl rfl) fun _ => .pure _) (.pure _)

theorem raises_closeStep (span : Span) (head : StepHead) (response : List Content) :
    Raises p (closeStep span head response : Pass σ Unit) := by
  have named (name : String) : Raises p (do
      write name (← responseValue span (Fields.has "schema" head.config) response) : Pass σ Unit) :=
    .bind (raises_responseValue ordinary _ _ _) fun _ => .modify _
  obtain ⟨_ | name, _ | rawName, config⟩ := head
  · exact .pure _
  · exact .bind (.modify _) fun _ => .pure _
  · exact named name
  · exact .bind (.modify _) fun _ => named name

theorem raises_itemsOf (e : Expr) (v : Value) : Raises p (itemsOf e v : Pass σ (List Value)) := by
  cases v with
  | array vs => exact .pure _
  | _ => exact .throw fun _ => ordinary _ _ rfl rfl

theorem raises_meetHeader (span : Span) (data : String) : Raises p (meetHeader span data : Pass σ Unit) := by
  unfold meetHeader
  split
  · exact .throw fun _ => ordinary _ _ rfl rfl
  · exact .modify _

theorem raises_toolAnswer (span : Span) (m : Message) (attributes : Attributes) :
    Raises p (toolAnswer span m attributes : Pass σ Message) :=
  .bind (raises_need ordinary _ _ rfl rfl) fun _ => .bind (raises_need ordinary _ _ rfl rfl) fun _ => .pure _

theorem raises_roleOf (span : Span) (role : Option Role) (attributes : Attributes) :
    Raises p (roleOf span role attributes : Pass σ (Role × Attributes)) := by
  cases role with
  | some role => exact .pure _
  | none =>
    exact .bind (raises_need ordinary _ _ rfl rfl) fun _ => .bind (raises_need ordinary _ _ rfl rfl) fun _ => .pure _

end Ordinary

section Common

variable (common : Common refers p)

include common

theorem raises_messageOf (role : Role) (content : List (Content × Span)) (span : Span) :
    Raises p (messageOf role content span : Pass σ Message) := by
  unfold messageOf
  split
  · exact .ite (.pure _) (.throw fun _ => common _ _ rfl)
  · exact .pure _

theorem raises_flushContent : Raises p (flushContent options : Pass σ Unit) := by
  refine .bind (raises_takeContent options) fun content => ?_
  cases content with
  | nil => exact .pure _
  | cons => exact .bind (raises_messageOf common _ _ _) fun _ => .modify _

theorem raises_staticAttribute (name : String) (attributes : List Attribute) :
    Raises p (staticAttribute name attributes : Pass σ (Option String)) := by
  unfold staticAttribute
  split
  · exact .pure _
  · next a _ =>
    cases a.value.staticText? with
    | none => exact .bind (.throw fun _ => common _ _ rfl) fun _ => .pure _
    | some text => exact .bind (.pure text) fun _ => .pure _

/-- A message tag is misplaced only within a message or a content tag. -/
theorem raises_openMessage {around : Surroundings} (placed : (around.inMessage || around.inContent) = false)
    (span : Span) (role : Option Role) (attributes : Attributes) :
    Raises p (openMessage options around span role attributes : Pass σ (Role × Attributes)) := by
  unfold openMessage
  rw [placed]
  exact .bind (raises_flushContent options common) fun _ => raises_roleOf common.ordinary span role attributes

theorem raises_closeMessage (span : Span) (role : Role) (attributes : Attributes) :
    Raises p (closeMessage options span role attributes : Pass σ Unit) := by
  refine .bind (raises_takeContent options) fun _ => .bind (raises_messageOf common _ _ _) fun m => .ite ?_ (.modify _)
  exact .bind (raises_toolAnswer common.ordinary span m attributes) fun _ => .modify _

/-- A step is misplaced only within a step. -/
theorem raises_openStep {around : Surroundings} (placed : around.inStep = false) (span : Span) (tags : List Attribute)
    (attributes : Attributes) : Raises p (openStep around span tags attributes : Pass σ StepHead) := by
  unfold openStep
  rw [placed]
  exact .bind (raises_staticAttribute common _ _) fun _ => .bind (raises_staticAttribute common _ _) fun _ => .pure _

end Common

section Evaluations

variable {eval : Evaluator σ} (evals : ∀ e, Raises p (evaluate eval e))

include evals

theorem raises_attributeParts (parts : List Node) : Raises p (attributeParts eval parts) := by
  induction parts with
  | nil => exact .pure _
  | cons n r ih =>
    cases n with
    | text => exact .bind ih fun _ => .pure _
    | interpolation span e _ =>
      refine .bind (evals e) fun v => ?_
      cases v with
      | undefined => exact ih
      | _ => exact .bind ih fun _ => .pure _
    | _ => exact ih

theorem raises_attributeValues (attributes : List Attribute) (acc : Attributes) :
    Raises p (attributeValues eval attributes acc) := by
  induction attributes generalizing acc with
  | nil => exact .pure _
  | cons a r ih =>
    obtain ⟨span, name, value⟩ := a
    cases value with
    | flag => exact ih _
    | nodes parts =>
      refine .bind (raises_attributeParts evals parts) fun vs => ?_
      split <;> exact ih _

theorem raises_interpolate (ordinary : Ordinary refers p) (around : Surroundings) (span : Span) (e : Expr) :
    Raises p (interpolate eval options around span e) := by
  refine .bind (evals e) fun v => .ite (.pure _) ?_
  cases v with
  | undefined => exact .pure _
  | _ => exact raises_putValue options ordinary _ _ _ _

end Evaluations

end Pass
end PromptScript
