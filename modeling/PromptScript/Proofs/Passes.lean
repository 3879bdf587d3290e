import PromptScript.Pass.Walk

/-! # Results of parts of a pass

What a part of a pass does in a state is its `result`, a value or a fault with the state that is left. A part put
together from others has the result that the lemmas of this module say. Many parts are `Still`: they look at no
state and leave it as it is. -/
namespace PromptScript

variable {σ : Type}

namespace PassState

/-- The names in view. -/
def table (s : PassState σ) : Pointers := s.machine.scope.pointers

/-- The state with other names and cells in view. -/
def withScope (scope : Scope) (s : PassState σ) : PassState σ := { s with machine := { s.machine with scope } }

/-- The state with other names in view. -/
def withTable (table : Pointers) (s : PassState σ) : PassState σ :=
  s.withScope { s.machine.scope with pointers := table }

/-- The state in which a response waits. -/
def answered (r : List Content) (s : PassState σ) : PassState σ := { s with response := some r }

/-- Nothing waits for its message. -/
structure Blank (s : PassState σ) : Prop where
  passage : s.passage = []
  pending : s.pending = []

@[simp] theorem response_withScope (scope : Scope) (s : PassState σ) : (s.withScope scope).response = s.response := rfl

@[simp] theorem scope_withScope (scope : Scope) (s : PassState σ) : (s.withScope scope).machine.scope = scope := rfl

@[simp] theorem withScope_withScope (scope scope' : Scope) (s : PassState σ) :
    (s.withScope scope).withScope scope' = s.withScope scope' := rfl

@[simp] theorem withScope_self (s : PassState σ) : s.withScope s.machine.scope = s := rfl

@[simp] theorem withScope_answered (scope : Scope) (r : List Content) (s : PassState σ) :
    (s.answered r).withScope scope = (s.withScope scope).answered r := rfl

@[simp] theorem scope_answered (r : List Content) (s : PassState σ) :
    (s.answered r).machine.scope = s.machine.scope := rfl

@[simp] theorem response_withTable (table : Pointers) (s : PassState σ) :
    (s.withTable table).response = s.response := rfl

@[simp] theorem table_withTable (table : Pointers) (s : PassState σ) : (s.withTable table).table = table := rfl

@[simp] theorem withTable_withTable (table table' : Pointers) (s : PassState σ) :
    (s.withTable table).withTable table' = s.withTable table' := rfl

@[simp] theorem withTable_self (s : PassState σ) : s.withTable s.table = s := rfl

@[simp] theorem withTable_answered (table : Pointers) (r : List Content) (s : PassState σ) :
    (s.answered r).withTable table = (s.withTable table).answered r := rfl

@[simp] theorem table_answered (r : List Content) (s : PassState σ) : (s.answered r).table = s.table := rfl

theorem Blank.withScope {s : PassState σ} (h : s.Blank) (scope : Scope) : (s.withScope scope).Blank :=
  ⟨h.passage, h.pending⟩

theorem Blank.withTable {s : PassState σ} (h : s.Blank) (table : Pointers) : (s.withTable table).Blank :=
  h.withScope _

theorem Blank.answered {s : PassState σ} (h : s.Blank) (r : List Content) : (s.answered r).Blank :=
  ⟨h.passage, h.pending⟩

end PassState

namespace Pass

variable {α β : Type}

/-- What a part gives in a state, and the state that it leaves. -/
def result (part : Pass σ α) (s : PassState σ) : Except Fault α × PassState σ := part.run.run s

/-- A part has a value, and leads from one state to another. -/
def Runs (part : Pass σ α) (s : PassState σ) (a : α) (t : PassState σ) : Prop := part.result s = (.ok a, t)

section Result

variable {s s' t : PassState σ} {a b : α}

theorem Runs.unique {part : Pass σ α} {t' : PassState σ} (h : Runs part s a t) (h' : Runs part s b t') :
    a = b ∧ t = t' := by
  obtain ⟨value, left⟩ := Prod.mk.inj (h.symm.trans h')
  exact ⟨Except.ok.inj value, left⟩

@[simp] theorem result_pure : (pure a : Pass σ α).result s = (.ok a, s) := rfl

theorem runs_pure : Runs (pure a : Pass σ α) s b t ↔ a = b ∧ s = t := by
  unfold Runs
  rw [result_pure, Prod.mk.injEq, Except.ok.injEq]

theorem result_bind {part : Pass σ α} {f : α → Pass σ β} :
    (part >>= f).result s = match part.result s with
      | (.ok a, s') => (f a).result s'
      | (.error fault, s') => (.error fault, s') := by
  show (part.run >>= ExceptT.bindCont f) s = _
  unfold result
  show (match part.run s with | (x, s') => ExceptT.bindCont f x s') = match part.run s with
      | (.ok a, s') => (f a).result s'
      | (.error fault, s') => (.error fault, s')
  obtain ⟨x, s'⟩ := part.run s
  cases x <;> rfl

/-- A part that follows another goes on where the first has led. -/
theorem Runs.result_bind {part : Pass σ α} {f : α → Pass σ β} (h : Runs part s a s') :
    (part >>= f).result s = (f a).result s' := by
  rw [Pass.result_bind, h]

/-- What follows a part depends on its result only. -/
theorem result_bind_congr {part part' : Pass σ α} {f : α → Pass σ β} (h : part.result s = part'.result s') :
    (part >>= f).result s = (part' >>= f).result s' := by
  rw [result_bind, result_bind, h]

theorem runs_bind {part : Pass σ α} {f : α → Pass σ β} {b : β} :
    Runs (part >>= f) s b t ↔ ∃ a s', Runs part s a s' ∧ Runs (f a) s' b t := by
  constructor
  · intro h
    unfold Runs at h
    rw [result_bind] at h
    split at h
    · next a s' first => exact ⟨a, s', first, h⟩
    · cases h
  · rintro ⟨a, s', first, last⟩
    exact first.result_bind.trans last

theorem result_fail {defect : Defect} {span : Span} :
    (fail defect span : Pass σ α).result s = (.error ⟨defect, span⟩, s) := rfl

end Result

/-! ## Parts that may stop -/

section Flow

variable {s s' t : PassState σ} {a : α} {b : β} {flow : Flow}

theorem runs_into {f : α → Flow → β} {part : Pass σ (α × Flow)} :
    Runs (into f part) s (b, flow) t ↔ ∃ a, Runs part s (a, flow) t ∧ f a flow = b := by
  unfold into
  rw [runs_bind]
  constructor
  · rintro ⟨⟨a, flow'⟩, s', first, last⟩
    obtain ⟨same, rfl⟩ := runs_pure.mp last
    obtain ⟨rfl, rfl⟩ := Prod.mk.inj same
    exact ⟨a, first, rfl⟩
  · rintro ⟨a, first, rfl⟩
    exact ⟨(a, flow), t, first, rfl⟩

theorem result_into_congr {f : α → Flow → β} {part part' : Pass σ (α × Flow)} (h : part.result s = part'.result s') :
    (into f part).result s = (into f part').result s' :=
  result_bind_congr h

theorem runs_goingOn {part : Pass σ (α × Flow)} {left : α → β} {rest : α → Pass σ (β × Flow)} :
    Runs (goingOn part left rest) s (b, flow) t ↔
      (∃ a, Runs part s (a, .stops) t ∧ left a = b ∧ flow = .stops) ∨
        ∃ a s', Runs part s (a, .goesOn) s' ∧ Runs (rest a) s' (b, flow) t := by
  unfold goingOn
  rw [runs_bind]
  constructor
  · rintro ⟨⟨a, _ | _⟩, s', first, last⟩
    · exact .inr ⟨a, s', first, last⟩
    · obtain ⟨same, rfl⟩ := runs_pure.mp last
      obtain ⟨rfl, rfl⟩ := Prod.mk.inj same
      exact .inl ⟨a, first, rfl, rfl⟩
  · rintro (⟨a, first, rfl, rfl⟩ | ⟨a, s', first, last⟩)
    · exact ⟨(a, .stops), t, first, rfl⟩
    · exact ⟨(a, .goesOn), s', first, last⟩

theorem result_goingOn_congr {part part' : Pass σ (α × Flow)} {left : α → β} {rest : α → Pass σ (β × Flow)}
    (h : part.result s = part'.result s') : (goingOn part left rest).result s = (goingOn part' left rest).result s' :=
  result_bind_congr h

/-- Where the first part goes on, the second has the say. -/
theorem Runs.result_goingOn {part : Pass σ (α × Flow)} {left : α → β} {rest : α → Pass σ (β × Flow)}
    (h : Runs part s (a, .goesOn) s') : (goingOn part left rest).result s = (rest a).result s' :=
  Runs.result_bind h

theorem result_inView {table : Option Pointers} {part : Pass σ (α × Flow)} :
    (inView table part).result s = match part.result (s.withTable (table.getD s.table)) with
      | (.ok (a, flow), t) => (.ok ((a, t.table), flow), t.withTable s.table)
      | (.error fault, t) => (.error fault, t) := by
  unfold inView
  rw [show result _ s = result (part >>= _) (s.withTable (table.getD s.table)) from rfl, result_bind]
  obtain ⟨_ | ⟨a, flow⟩, t⟩ := part.result (s.withTable (table.getD s.table)) <;> rfl

theorem runs_inView {table : Option Pointers} {part : Pass σ (α × Flow)} {inner : Pointers} :
    Runs (inView table part) s ((a, inner), flow) t ↔
      ∃ t', Runs part (s.withTable (table.getD s.table)) (a, flow) t' ∧ t'.table = inner ∧ t'.withTable s.table = t := by
  unfold Runs
  rw [result_inView]
  constructor
  · intro h
    split at h
    · next a' flow' t' ran =>
      obtain ⟨value, rfl⟩ := Prod.mk.inj h
      obtain ⟨both, rfl⟩ := Prod.mk.inj (Except.ok.inj value)
      obtain ⟨rfl, rfl⟩ := Prod.mk.inj both
      exact ⟨t', ran, rfl, rfl⟩
    · cases h
  · rintro ⟨t', ran, rfl, rfl⟩
    rw [ran]

/-- What a part does in a view depends on its result there only. -/
theorem result_inView_congr {table table' : Option Pointers} {part part' : Pass σ (α × Flow)}
    (h : part.result (s.withTable (table.getD s.table)) = part'.result (s'.withTable (table'.getD s'.table)))
    (outer : s.table = s'.table) : (inView table part).result s = (inView table' part').result s' := by
  rw [result_inView, result_inView, h, outer]

theorem result_inScope {scope : Scope} {part : Pass σ (α × Flow)} :
    (inScope scope part).result s = match part.result (s.withScope scope) with
      | (.ok (a, flow), t) => (.ok ((a, t.machine.scope), flow), t.withScope s.machine.scope)
      | (.error fault, t) => (.error fault, t) := by
  unfold inScope
  rw [show result _ s = result (part >>= _) (s.withScope scope) from rfl, result_bind]
  obtain ⟨_ | ⟨a, flow⟩, t⟩ := part.result (s.withScope scope) <;> rfl

theorem runs_inScope {scope inner : Scope} {part : Pass σ (α × Flow)} :
    Runs (inScope scope part) s ((a, inner), flow) t ↔
      ∃ t', Runs part (s.withScope scope) (a, flow) t' ∧ t'.machine.scope = inner ∧
        t'.withScope s.machine.scope = t := by
  unfold Runs
  rw [result_inScope]
  constructor
  · intro h
    split at h
    · next a' flow' t' ran =>
      obtain ⟨value, rfl⟩ := Prod.mk.inj h
      obtain ⟨both, rfl⟩ := Prod.mk.inj (Except.ok.inj value)
      obtain ⟨rfl, rfl⟩ := Prod.mk.inj both
      exact ⟨t', ran, rfl, rfl⟩
    · cases h
  · rintro ⟨t', ran, rfl, rfl⟩
    rw [ran]

/-- What a part does in a scope depends on its result there only. -/
theorem result_inScope_congr {scope scope' : Scope} {part part' : Pass σ (α × Flow)}
    (h : part.result (s.withScope scope) = part'.result (s'.withScope scope'))
    (outer : s.machine.scope = s'.machine.scope) : (inScope scope part).result s = (inScope scope' part').result s' := by
  rw [result_inScope, result_inScope, h, outer]

end Flow

/-! ## Still parts -/

/-- A part that looks at no state and leaves it as it is. -/
def Still (part : Pass σ α) : Prop := ∃ x : Except Fault α, ∀ s, part.result s = (x, s)

theorem Still.runs {part : Pass σ α} (h : Still part) {s t : PassState σ} {a : α} (ran : Runs part s a t) :
    t = s ∧ ∀ u, Runs part u a u := by
  obtain ⟨x, same⟩ := h
  obtain ⟨rfl, rfl⟩ := Prod.mk.inj ((same s).symm.trans ran)
  exact ⟨rfl, same⟩

theorem still_pure (a : α) : Still (pure a : Pass σ α) := ⟨.ok a, fun _ => rfl⟩

theorem still_throw (fault : Fault) : Still (throw fault : Pass σ α) := ⟨.error fault, fun _ => rfl⟩

theorem still_fail (defect : Defect) (span : Span) : Still (fail defect span : Pass σ α) := still_throw _

theorem Still.bind {part : Pass σ α} {f : α → Pass σ β} (first : Still part) (rest : ∀ a, Still (f a)) :
    Still (part >>= f) := by
  obtain ⟨_ | a, same⟩ := first
  · exact ⟨.error _, fun s => by rw [result_bind, same]⟩
  · obtain ⟨x, same'⟩ := rest a
    exact ⟨x, fun s => (Runs.result_bind (same s)).trans (same' s)⟩

theorem still_need (v : Option α) (defect : Defect) (span : Span) : Still (need v defect span : Pass σ α) := by
  cases v with
  | none => exact still_fail ..
  | some a => exact still_pure a

variable (options : Options)

theorem still_messageOf (role : Role) (content : List (Content × Span)) (span : Span) :
    Still (messageOf role content span : Pass σ Message) := by
  unfold messageOf
  split
  · split
    · exact still_pure _
    · exact still_fail ..
  · exact still_pure _

theorem still_staticAttribute (name : String) (attributes : List Attribute) :
    Still (staticAttribute name attributes : Pass σ (Option String)) := by
  unfold staticAttribute
  split
  · exact still_pure _
  · exact (still_need ..).bind fun _ => still_pure _

theorem still_roleOf (span : Span) (role : Option Role) (attributes : Attributes) :
    Still (roleOf span role attributes : Pass σ (Role × Attributes)) := by
  unfold roleOf
  split
  · exact still_pure _
  · exact (still_need ..).bind fun _ => (still_need ..).bind fun _ => still_pure _

theorem still_toolAnswer (span : Span) (m : Message) (attributes : Attributes) :
    Still (toolAnswer span m attributes : Pass σ Message) := by
  unfold toolAnswer
  exact (still_need ..).bind fun _ => (still_need ..).bind fun _ => still_pure _

theorem still_argumentsOf (span : Span) (attributes : Attributes) :
    Still (argumentsOf span attributes : Pass σ Value) := by
  unfold argumentsOf
  split
  · exact still_pure _
  · exact (still_need ..).bind fun _ => still_pure _
  · exact still_pure _

theorem still_itemOf (span : Span) (kind : ContentKind) (text : Option Paragraph) (attributes : Attributes) :
    Still (itemOf options span kind text attributes : Pass σ (Option Content)) := by
  unfold itemOf
  split
  · exact still_pure _
  · exact (still_need ..).bind fun _ => still_pure _
  · exact (still_need ..).bind fun _ => (still_need ..).bind fun _ => still_pure _
  · exact (still_need ..).bind fun _ => (still_need ..).bind fun _ => (still_argumentsOf ..).bind fun _ => still_pure _

theorem still_openContent (around : Surroundings) (span : Span) (kind : Option ContentKind)
    (attributes : Attributes) :
    Still (openContent around span kind attributes : Pass σ (ContentKind × Attributes)) := by
  have still : Still (kindOf span kind attributes : Pass σ (ContentKind × Attributes)) := by
    unfold kindOf
    split
    · exact still_pure _
    · exact (still_need ..).bind fun _ => (still_need ..).bind fun _ => still_pure _
  unfold openContent
  split
  · exact (still_fail ..).bind fun _ => still
  · exact still

theorem still_responseValue (span : Span) (hasSchema : Bool) (response : List Content) :
    Still (responseValue span hasSchema response : Pass σ Value) := by
  unfold responseValue
  dsimp only
  split
  · exact (still_need ..).bind fun _ => still_pure _
  · exact still_pure _

theorem still_openStep (around : Surroundings) (span : Span) (tags : List Attribute) (attributes : Attributes) :
    Still (openStep around span tags attributes : Pass σ StepHead) := by
  have still : Still (do
      let resultName ← staticAttribute "as" tags
      let rawName ← staticAttribute "raw" tags
      return ⟨resultName, rawName, Attributes.toJson (Fields.erase "raw" (Fields.erase "as" attributes))⟩ :
        Pass σ StepHead) :=
    (still_staticAttribute ..).bind fun _ => (still_staticAttribute ..).bind fun _ => still_pure _
  unfold openStep
  split
  · exact (still_fail ..).bind fun _ => still
  · exact still

/-- Within a step no other step begins. -/
theorem not_runs_openStep {around : Surroundings} (inside : around.inStep = true) {span : Span}
    {tags : List Attribute} {attributes : Attributes} {s t : PassState σ} {head : StepHead} :
    ¬ Runs (openStep around span tags attributes) s head t := by
  unfold openStep
  rw [if_pos inside]
  nofun

theorem still_itemsOf (e : Expr) (v : Value) : Still (itemsOf e v : Pass σ (List Value)) := by
  unfold itemsOf
  split
  · exact still_pure _
  · exact still_fail ..

theorem still_newScope (attributes : Attributes) (body : List Node) :
    Still (newScope attributes body : Pass σ Scope) := by
  unfold newScope
  split
  · exact still_throw _
  · exact still_pure _

/-! ## Changes that make no difference -/

/-- A part does the same before and after a change. -/
def Commutes (f : PassState σ → PassState σ) (part : Pass σ α) : Prop :=
  ∀ s, part.result (f s) = ((part.result s).1, f (part.result s).2)

section Commutes

variable {f : PassState σ → PassState σ}

theorem Commutes.runs {part : Pass σ α} (h : Commutes f part) {s t : PassState σ} {a : α} (ran : Runs part s a t) :
    Runs part (f s) a (f t) := by
  unfold Runs
  rw [h s, ran]

theorem Still.commutes {part : Pass σ α} (h : Still part) : Commutes f part := by
  obtain ⟨x, same⟩ := h
  exact fun s => by rw [same, same]

theorem Commutes.bind {part : Pass σ α} {k : α → Pass σ β} (first : Commutes f part) (rest : ∀ a, Commutes f (k a)) :
    Commutes f (part >>= k) := by
  intro s
  rw [result_bind, result_bind, first s]
  obtain ⟨_ | a, t⟩ := part.result s
  · rfl
  · exact rest a t

theorem commutes_pure (a : α) : Commutes f (pure a : Pass σ α) := (still_pure a).commutes

theorem commutes_modify {g : PassState σ → PassState σ} (h : ∀ s, g (f s) = f (g s)) :
    Commutes f (modify g : Pass σ Unit) :=
  fun s => congrArg (fun t => (Except.ok (), t)) (h s)

theorem Commutes.into {k : α → Flow → β} {part : Pass σ (α × Flow)} (h : Commutes f part) :
    Commutes f (into k part) :=
  h.bind fun _ => commutes_pure _

theorem Commutes.goingOn {part : Pass σ (α × Flow)} {left : α → β} {rest : α → Pass σ (β × Flow)}
    (first : Commutes f part) (last : ∀ a, Commutes f (rest a)) : Commutes f (goingOn part left rest) := by
  refine first.bind fun (a, flow) => ?_
  cases flow with
  | stops => exact commutes_pure _
  | goesOn => exact last a

theorem Commutes.closing {part : Pass σ (α × Flow)} {close : Pass σ Unit} (first : Commutes f part)
    (last : Commutes f close) : Commutes f (closing part close) :=
  first.goingOn fun _ => last.bind fun _ => commutes_pure _

end Commutes
end Pass
end PromptScript

/-! ## Two computations side by side

`Abreast` compares two computations that may run on states of different types: from states that are related one way
both give related values and leave states that are related another way, or both meet the same fault. It has a rule for
each way to put computations together. Most parts of a pass look at nothing of the machine; such a part is `Blind`,
and it is abreast of itself wherever the machines are. -/
namespace PromptScript

/-- The outcomes of two computations: related values and states, or the same fault. -/
inductive Meet {S T α β : Type} (fails : S → T → Prop) (after : α → β → S → T → Prop) :
    Except Fault α × S → Except Fault β × T → Prop
  | ok {a : α} {b : β} {s : S} {t : T} (h : after a b s t) : Meet fails after (.ok a, s) (.ok b, t)
  | error {fault : Fault} {s : S} {t : T} (h : fails s t) : Meet fails after (.error fault, s) (.error fault, t)

/-- Two computations do the same as far as the relations tell: `before` of the states they start in, `after` of what
they give, and `fails` of the states in which a fault leaves them. -/
def Abreast {S T α β : Type} (fails before : S → T → Prop) (c : ExceptT Fault (StateM S) α)
    (d : ExceptT Fault (StateM T) β) (after : α → β → S → T → Prop) : Prop :=
  ∀ s t, before s t → Meet fails after (c.run.run s) (d.run.run t)

namespace Abreast

variable {S T α β γ δ : Type} {fails before : S → T → Prop} {after : α → β → S → T → Prop}
  {c : ExceptT Fault (StateM S) α} {d : ExceptT Fault (StateM T) β}

theorem pure {a : α} {b : β} (h : ∀ s t, before s t → after a b s t) :
    Abreast fails before (Pure.pure a : ExceptT Fault (StateM S) α) (Pure.pure b : ExceptT Fault (StateM T) β) after :=
  fun s t related => .ok (h s t related)

theorem throw {fault : Fault} (h : ∀ s t, before s t → fails s t) :
    Abreast fails before (MonadExcept.throw fault : ExceptT Fault (StateM S) α)
      (MonadExcept.throw fault : ExceptT Fault (StateM T) β) after :=
  fun s t related => .error (h s t related)

theorem bind {f : α → ExceptT Fault (StateM S) γ} {g : β → ExceptT Fault (StateM T) δ}
    {last : γ → δ → S → T → Prop} (first : Abreast fails before c d after)
    (rest : ∀ a b, Abreast fails (after a b) (f a) (g b) last) : Abreast fails before (c >>= f) (d >>= g) last := by
  intro s t related
  show Meet fails last ((c.run >>= ExceptT.bindCont f) s) ((d.run >>= ExceptT.bindCont g) t)
  have here := first s t related
  show Meet fails last (match c.run.run s with | (x, s') => ExceptT.bindCont f x s')
    (match d.run.run t with | (y, t') => ExceptT.bindCont g y t')
  generalize c.run.run s = x at here
  generalize d.run.run t = y at here
  cases here with
  | ok h => exact rest _ _ _ _ h
  | error h => exact .error h

/-- Less may be asked, and more be known at the start. -/
theorem imp {fails' before' : S → T → Prop} {after' : α → β → S → T → Prop} (h : Abreast fails before c d after)
    (start : ∀ s t, before' s t → before s t) (last : ∀ a b s t, after a b s t → after' a b s t)
    (failed : ∀ s t, fails s t → fails' s t) : Abreast fails' before' c d after' := by
  intro s t related
  have here := h s t (start s t related)
  generalize c.run.run s = x at here
  generalize d.run.run t = y at here
  cases here with
  | ok h => exact .ok (last _ _ _ _ h)
  | error h => exact .error (failed _ _ h)

theorem mono {after' : α → β → S → T → Prop} (h : Abreast fails before c d after)
    (last : ∀ a b s t, after a b s t → after' a b s t) : Abreast fails before c d after' :=
  h.imp (fun _ _ => id) last fun _ _ => id

/-- A fact that has nothing to do with the states. -/
theorem of_fact {fact : Prop} (h : fact → Abreast fails before c d after) :
    Abreast fails (fun s t => fact ∧ before s t) c d after :=
  fun s t related => h related.1 s t related.2

/-- What is known of all values of the first. -/
theorem of_yields {good : α → Prop} (h : Abreast fails before c d after)
    (fine : ∀ s a s', c.run.run s = (.ok a, s') → good a) :
    Abreast fails before c d fun a b s t => good a ∧ after a b s t := by
  intro s t related
  have here := h s t related
  generalize ran : c.run.run s = x at here
  generalize d.run.run t = y at here
  cases here with
  | ok h => exact .ok ⟨fine s _ _ ran, h⟩
  | error h => exact .error h

/-- What is known of all values of the second. -/
theorem of_yields_right {good : β → Prop} (h : Abreast fails before c d after)
    (fine : ∀ t b t', d.run.run t = (.ok b, t') → good b) :
    Abreast fails before c d fun a b s t => good b ∧ after a b s t := by
  intro s t related
  have here := h s t related
  generalize c.run.run s = x at here
  generalize ran : d.run.run t = y at here
  cases here with
  | ok h => exact .ok ⟨fine t _ _ ran, h⟩
  | error h => exact .error h

/-- Where the first gives a value so does the second. -/
theorem ok_of_ok (h : Abreast fails before c d after) {s s' : S} {t : T} {a : α} (related : before s t)
    (ran : c.run.run s = (.ok a, s')) : ∃ b t', d.run.run t = (.ok b, t') ∧ after a b s' t' := by
  have here := h s t related
  rw [ran] at here
  generalize d.run.run t = y at here ⊢
  cases here with
  | ok h => exact ⟨_, _, rfl, h⟩

theorem get : Abreast fails before (MonadStateOf.get : ExceptT Fault (StateM S) S)
    (MonadStateOf.get : ExceptT Fault (StateM T) T) fun a b s t => a = s ∧ b = t ∧ before s t :=
  fun _ _ related => .ok ⟨rfl, rfl, related⟩

theorem modify {after : Unit → Unit → S → T → Prop} {f : S → S} {g : T → T}
    (h : ∀ s t, before s t → after () () (f s) (g t)) :
    Abreast fails before (modify f : ExceptT Fault (StateM S) Unit) (modify g : ExceptT Fault (StateM T) Unit) after :=
  fun s t related => .ok (h s t related)

end Abreast
end PromptScript
