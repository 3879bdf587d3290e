import PromptScript.Proofs.Acting
import PromptScript.Proofs.Beside
import PromptScript.Proofs.StopPaths

/-! # Passes on sound scopes

A pass beside one that does something else wherever a name has no cell. As long as the scope is sound the two do the
same, and keep it sound: parts that give values are `Sustains`, parts that visit nodes are `Carries`, which also tells what
the marks are afterwards. -/
namespace PromptScript

variable {σ : Type} {α β : Type}

/-- The names of the scope in view, with something else in the place of what is done without a cell. -/
def Variables.otherwise (other : Fallback) : Variables σ where
  get? name := do
    match (← get).scope.getOr other name with
    | .error fault => throw fault
    | .ok v => return v
  set name v := do
    match (← get).scope.setOr other name v with
    | .error fault => throw fault
    | .ok scope => modify fun m => { m with scope }

/-- A pass that does something else wherever a name has no cell. -/
def Pass.Acts.otherwise (other : Fallback) (host : Host σ) : Acts σ where
  find := evaluate (Expr.evalWith (.otherwise other) host)
  read _ := addSegment
  make := addContent
  attach := addContent
  write name v := do
    match (← get).machine.scope.setOr other name v with
    | .error fault => throw fault
    | .ok scope => modifyScope fun _ => scope
  scopeOf := Scope.ofListOr other

/-- A pass over a document that does something else wherever a name has no cell. -/
def Document.passOtherwise (other : Fallback) (host : Host σ) (options : Options) (d : Document)
    (response : Option (List Content)) (m : Machine σ) : Except Fault Outcome × Machine σ :=
  let (result, s) := (d.visitActing (Pass.Acts.otherwise other host) options).run.run (.opening m response)
  (result.map fun (document, flow) =>
    { messages := s.messages.toList, completed := flow = .goesOn, globalConfig := s.globalConfig
      stepConfig := s.stepConfig, document, stash := s.machine.scope.stash }, s.machine)

/-- A machine with a sound scope, of at least some number of cells. -/
structure Machine.Safe (size : Nat) (m n : Machine σ) : Prop where
  same : m = n
  sound : m.scope.Sound
  cells : size ≤ m.scope.stash.size

/-- Evaluations on a sound scope never come to a name without a cell. -/
theorem agrees_otherwise (other : Fallback) (host : Host σ) (size : Nat) :
    Agrees Eq (fun _ => Machine.Safe size) Variables.inScope host (Variables.otherwise other) host where
  failed safe := safe.same
  fewer _ safe := safe
  get? := by
    intro _ name _ m n safe
    obtain rfl := safe.same
    show Meet _ _ (.ok (m.scope.get? name), m) ((match m.scope.getOr other name with
      | .error fault => throw fault
      | .ok v => return v : Eval σ (Option Value)).run.run m)
    rw [safe.sound.getOr_eq]
    exact .ok ⟨rfl, safe⟩
  set := by
    intro _ name v m n safe
    obtain rfl := safe.same
    show Meet _ _ (.ok (), { m with scope := m.scope.set name v }) ((match m.scope.setOr other name v with
      | .error fault => throw fault
      | .ok scope => modify fun m => { m with scope } : Eval σ Unit).run.run m)
    rw [safe.sound.setOr_eq]
    exact .ok ⟨rfl, safe.sound.set name v, Nat.le_trans safe.cells (Scope.size_le_size_set _ _ _)⟩
  call := by
    intro _ m n identity args safe
    obtain rfl := safe.same
    exact ⟨rfl, rfl, safe.sound, safe.cells⟩
  fresh := by
    intro _ m n safe
    obtain rfl := safe.same
    exact ⟨rfl, rfl, safe.sound, safe.cells⟩
  now := by
    intro _ m n safe
    rw [safe.same]

namespace Pass

/-- Two passes are at the same place, with a sound scope of at least some number of cells. -/
structure Safe (size : Nat) (s t : PassState σ) : Prop where
  same : s = t
  sound : s.machine.scope.Sound
  cells : size ≤ s.machine.scope.stash.size

/-- Two parts give the same good value, and keep the scope sound. -/
abbrev Sustains (size : Nat) (part part' : Pass σ α) (good : α → Prop) : Prop :=
  Abreast Eq (Safe size) part part' fun a b s t => (good a ∧ a = b) ∧ Safe size s t

/-- How a part ends that visits nodes: what is left is `clean`, or it is `held` where the pass has stopped. -/
def Ends (around : Surroundings) (clean : α → Prop) (held : Config → Nat → α → Prop) (r : α × Flow) (s : PassState σ) :
    Prop :=
  match r.2 with
  | .goesOn => clean r.1
  | .stops => around.inStep = false ∧ ∃ config, s.stepConfig = some config ∧ held config s.machine.scope.stash.size r.1

/-- Two parts visit nodes and do the same, and keep the scope sound. -/
abbrev Carries (around : Surroundings) (size : Nat) (clean : α → Prop) (held : Config → Nat → α → Prop)
    (part part' : Pass σ (α × Flow)) : Prop :=
  Abreast Eq (Safe size) part part' fun r r' s t => (Ends around clean held r s ∧ r = r') ∧ Safe size s t

section Rules

variable {size : Nat} {around : Surroundings} {good : α → Prop} {clean : α → Prop} {held : Config → Nat → α → Prop}
  {clean' : β → Prop} {held' : Config → Nat → β → Prop}

theorem Sustains.pure {a : α} (h : good a) : Sustains size (Pure.pure a : Pass σ α) (Pure.pure a : Pass σ α) good :=
  Abreast.pure fun _ _ safe => ⟨⟨h, rfl⟩, safe⟩

theorem Sustains.bind {part part' : Pass σ α} {f g : α → Pass σ β} {last : β → β → PassState σ → PassState σ → Prop}
    (first : Sustains size part part' good) (rest : ∀ a, good a → Abreast Eq (Safe size) (f a) (g a) last) :
    Abreast Eq (Safe size) (part >>= f) (part' >>= g) last :=
  Abreast.bind first fun a b => .of_fact fun ⟨fine, same⟩ => by
    subst same
    exact rest a fine

theorem safe_fail {last : α → β → PassState σ → PassState σ → Prop} (fault : Fault) :
    Abreast Eq (Safe size) (throw fault : Pass σ α) (throw fault : Pass σ β) last :=
  .throw fun _ _ safe => safe.same

/-- A part that looks only at what waits. -/
theorem Sustains.of_apart {part : Pass σ α} (h : Apart part) (yields : Yields good part) : Sustains size part part good := by
  intro s t safe
  obtain rfl := safe.same
  generalize ran : part.run.run s = x
  obtain ⟨_ | a, u⟩ := x
  · exact .error rfl
  · have machine := h.machine_eq ran
    exact .ok ⟨⟨yields s a u ran, rfl⟩, rfl, by rw [machine]; exact safe.sound, by rw [machine]; exact safe.cells⟩

theorem Sustains.of_blind {part : Pass σ α} (h : Apart part) : Sustains size part part fun _ => True :=
  .of_apart h fun _ _ _ _ => trivial

theorem Carries.goesOn {a : α} (h : clean a) :
    Carries around size clean held (Pure.pure (a, .goesOn) : Pass σ (α × Flow)) (Pure.pure (a, .goesOn)) :=
  Abreast.pure fun _ _ safe => ⟨⟨h, rfl⟩, safe⟩

theorem Carries.goingOn {part part' : Pass σ (α × Flow)} {left : α → β} {rest rest' : α → Pass σ (β × Flow)}
    (h : Carries around size clean held part part') (stops : ∀ config k a, held config k a → held' config k (left a))
    (later : ∀ a, clean a → Carries around size clean' held' (rest a) (rest' a)) :
    Carries around size clean' held' (Pass.goingOn part left rest) (Pass.goingOn part' left rest') := by
  refine Abreast.bind h fun (a, flow) r' => ?_
  cases flow with
  | goesOn =>
    rintro s t ⟨⟨fine, rfl⟩, safe⟩
    exact later a fine s t safe
  | stops =>
    rintro s t ⟨⟨⟨outside, config, settings, marks⟩, rfl⟩, safe⟩
    exact .ok ⟨⟨⟨outside, config, settings, stops config _ a marks⟩, rfl⟩, safe⟩

theorem Carries.into {part part' : Pass σ (α × Flow)} {f : α → Flow → β} (h : Carries around size clean held part part')
    (goes : ∀ a, clean a → clean' (f a .goesOn)) (stops : ∀ config k a, held config k a → held' config k (f a .stops)) :
    Carries around size clean' held' (Pass.into f part) (Pass.into f part') := by
  refine Abreast.bind h fun (a, flow) r' => ?_
  cases flow with
  | goesOn =>
    rintro s t ⟨⟨fine, rfl⟩, safe⟩
    exact .ok ⟨⟨goes a fine, rfl⟩, safe⟩
  | stops =>
    rintro s t ⟨⟨⟨outside, config, settings, marks⟩, rfl⟩, safe⟩
    exact .ok ⟨⟨⟨outside, config, settings, stops config _ a marks⟩, rfl⟩, safe⟩

theorem Carries.closing {part part' : Pass σ (α × Flow)} {close close' : Pass σ Unit}
    (h : Carries around size clean held part part') (last : Sustains size close close' fun _ => True) :
    Carries around size clean held (Pass.closing part close) (Pass.closing part' close') :=
  h.goingOn (fun _ _ _ => id) fun _ fine => last.bind fun _ _ => Carries.goesOn fine

theorem Carries.inView {part part' : Pass σ (α × Flow)} {table : Option Pointers}
    (sound : ∀ own, table = some own → own.Sound size)
    (h : ∀ k, size ≤ k → Carries around k clean held part part') :
    Carries around size (fun x => clean x.1) (fun config k x => x.2.Sound k ∧ held config k x.1)
      (Pass.inView table part) (Pass.inView table part') := by
  intro s t safe
  obtain rfl := safe.same
  have inner : (table.getD s.table).Sound s.machine.scope.stash.size := by
    cases table with
    | none => exact safe.sound
    | some own => exact (sound own rfl).mono safe.cells
  show Meet _ _ ((Pass.inView table part).result s) ((Pass.inView table part').result s)
  have both := h s.machine.scope.stash.size safe.cells (s.withTable (table.getD s.table)) _ ⟨rfl, inner, Nat.le_refl _⟩
  rw [result_inView, result_inView]
  unfold result
  generalize part.run.run (s.withTable (table.getD s.table)) = x at both ⊢
  generalize part'.run.run (s.withTable (table.getD s.table)) = y at both ⊢
  cases both with
  | error same => exact .error same
  | @ok r r' u u' both =>
    obtain ⟨⟨ends, rfl⟩, rfl, sound', cells⟩ := both
    obtain ⟨a, flow⟩ := r
    refine .ok ⟨⟨?_, rfl⟩, rfl, safe.sound.mono cells, Nat.le_trans safe.cells cells⟩
    cases flow with
    | goesOn => exact ends
    | stops =>
      obtain ⟨outside, config, settings, marks⟩ := ends
      exact ⟨outside, config, settings, sound', marks⟩

theorem Carries.inScope {part part' : Pass σ (α × Flow)} {scope : Scope} (sound : scope.Sound)
    (h : Carries around scope.stash.size clean held part part') :
    Carries around size (fun x => clean x.1) (fun config _ x => x.2.Sound ∧ held config x.2.stash.size x.1)
      (Pass.inScope scope part) (Pass.inScope scope part') := by
  intro s t safe
  obtain rfl := safe.same
  show Meet _ _ ((Pass.inScope scope part).result s) ((Pass.inScope scope part').result s)
  have both := h (s.withScope scope) _ ⟨rfl, sound, Nat.le_refl _⟩
  rw [result_inScope, result_inScope]
  unfold result
  generalize part.run.run (s.withScope scope) = x at both ⊢
  generalize part'.run.run (s.withScope scope) = y at both ⊢
  cases both with
  | error same => exact .error same
  | @ok r r' u u' both =>
    obtain ⟨⟨ends, rfl⟩, rfl, sound', -⟩ := both
    obtain ⟨a, flow⟩ := r
    refine .ok ⟨⟨?_, rfl⟩, rfl, safe.sound, safe.cells⟩
    cases flow with
    | goesOn => exact ends
    | stops =>
      obtain ⟨outside, config, settings, marks⟩ := ends
      exact ⟨outside, config, settings, sound', marks⟩

end Rules

/-! ## Parts that give values -/

section Values

variable {size : Nat} (other : Fallback) (host : Host σ)

theorem sustains_evaluate (e : Expr) : Sustains size (evaluate (Expr.eval host) e) ((Acts.otherwise other host).find e)
    fun _ => True := by
  intro s t safe
  obtain rfl := safe.same
  have both := coupled_evalWith (agrees_otherwise other host size) e (fun _ => True) (fun _ _ => trivial) s.machine
    s.machine ⟨rfl, safe.sound, safe.cells⟩
  show Meet _ _ ((evaluate (Expr.eval host) e).result s)
    ((evaluate (Expr.evalWith (.otherwise other) host) e).result s)
  rw [result_evaluate, result_evaluate]
  unfold Expr.eval
  generalize (Expr.evalWith .inScope host e).run.run s.machine = x at both ⊢
  generalize (Expr.evalWith (.otherwise other) host e).run.run s.machine = y at both ⊢
  cases both with
  | error same =>
    obtain rfl := same
    exact .error rfl
  | ok both =>
    obtain ⟨rfl, rfl, sound, cells⟩ := both
    exact .ok ⟨⟨trivial, rfl⟩, rfl, sound, cells⟩

theorem sustains_write (name : String) (v : Value) :
    Sustains size (write name v : Pass σ Unit) ((Acts.otherwise other host).write name v) fun _ => True := by
  intro s t safe
  obtain rfl := safe.same
  show Meet _ _ (.ok (), s.withScope (s.machine.scope.set name v)) ((match s.machine.scope.setOr other name v with
    | .error fault => throw fault
    | .ok scope => modifyScope fun _ => scope : Pass σ Unit).run.run s)
  rw [safe.sound.setOr_eq]
  exact .ok ⟨⟨trivial, rfl⟩, rfl, safe.sound.set name v, Nat.le_trans safe.cells (Scope.size_le_size_set _ _ _)⟩

theorem sustains_declare (name : String) (v : Value) :
    Sustains size (declare name v : Pass σ Unit) (declare name v : Pass σ Unit) fun _ => True := by
  intro s t safe
  obtain rfl := safe.same
  refine .ok ⟨⟨trivial, rfl⟩, rfl, safe.sound.declare name v, Nat.le_trans safe.cells ?_⟩
  show s.machine.scope.stash.size ≤ (s.machine.scope.stash.push v).size
  rw [Array.size_push]
  exact Nat.le_succ _

theorem sustains_declareItem (item : Binding) (index : Option Binding) (v : Value) (n : Nat) :
    Sustains size (declareItem item index v n : Pass σ Unit) (declareItem item index v n : Pass σ Unit) fun _ => True := by
  refine (sustains_declare _ _).bind fun _ _ => ?_
  cases index with
  | none => exact Sustains.pure trivial
  | some index => exact sustains_declare _ _

theorem sustains_attributeParts (parts : List Node) :
    Sustains size (attributeParts (Expr.eval host) parts) ((Acts.otherwise other host).attributeParts parts)
      fun _ => True := by
  induction parts with
  | nil => exact Sustains.pure trivial
  | cons n r ih =>
    cases n with
    | text _ data _ => exact ih.bind fun _ _ => Sustains.pure trivial
    | interpolation _ e _ =>
      refine (sustains_evaluate other host e).bind fun v _ => ?_
      cases v with
      | undefined => exact ih
      | _ => exact ih.bind fun _ _ => Sustains.pure trivial
    | comment _ _ _ | config _ _ _ | choice _ _ _ _ _ | loop _ _ _ _ _ _ _ | element _ _ _ _ _ | group _ _ _ =>
      exact ih

theorem sustains_attributeValues (attributes : List Attribute) (acc : Attributes) :
    Sustains size (attributeValues (Expr.eval host) attributes acc)
      ((Acts.otherwise other host).attributeValues attributes acc) fun _ => True := by
  induction attributes generalizing acc with
  | nil => exact Sustains.pure trivial
  | cons a r ih =>
    obtain ⟨_, name, _ | parts⟩ := a
    · exact ih _
    · refine (sustains_attributeParts other host parts).bind fun vs _ => ?_
      obtain _ | ⟨v, _ | ⟨w, vs⟩⟩ := vs
      · exact ih _
      · exact ih _
      · exact ih _

/-- What a node remembers is what it remembers already. -/
theorem sustains_remembered (p : Progress) {find find' : Pass σ Value} (h : Sustains size find find' fun _ => True) :
    Sustains size (remembered p find) (remembered p find') fun v => ∀ w, p.memo = some w → v = w := by
  unfold remembered
  cases p.memo with
  | some v => exact Sustains.pure fun w same => Option.some.inj same
  | none => exact h.mono fun _ _ _ _ both => ⟨⟨(by rintro _ ⟨⟩), both.1.2⟩, both.2⟩

theorem sustains_rememberedAttributes (p : Progress) (attributes : List Attribute) :
    Sustains size (rememberedAttributes (Expr.eval host) p attributes)
      ((Acts.otherwise other host).rememberedAttributes p attributes) fun _ => True := by
  have found : Sustains size (attributeValues (Expr.eval host) attributes [])
      ((Acts.otherwise other host).attributeValues attributes []) fun _ => True :=
    sustains_attributeValues other host attributes []
  unfold Acts.rememberedAttributes rememberedAttributes
  cases p.memo with
  | none => exact found
  | some v =>
    cases v with
    | object fields => exact Sustains.pure trivial
    | _ => exact found

variable (options : Options)

theorem sustains_interpolate (around : Surroundings) (inCall : Bool) (span : Span) (e : Expr) :
    Sustains size (interpolate (Expr.eval host) options around span e)
      ((Acts.otherwise other host).interpolate options around inCall span e) fun _ => True :=
  (sustains_evaluate other host e).bind fun v _ => Sustains.of_blind (apart_interpolated options around span e v)

theorem sustains_closeStep (span : Span) (head : StepHead) (response : List Content) :
    Sustains size (closeStep span head response : Pass σ Unit) ((Acts.otherwise other host).closeStep span head response)
      fun _ => True := by
  have named (name : String) : Sustains size (do
      write name (← responseValue span (Fields.has "schema" head.config) response) : Pass σ Unit) (do
      (Acts.otherwise other host).write name (← responseValue span (Fields.has "schema" head.config) response))
        fun _ => True :=
    (Sustains.of_blind (still_responseValue _ _ _).apart).bind fun v _ => sustains_write other host name v
  have none_ : Sustains size (pure () : Pass σ Unit) (pure () : Pass σ Unit) fun _ => True := Sustains.pure trivial
  obtain ⟨_ | name, _ | rawName, config⟩ := head
  · exact none_.bind fun _ _ => none_
  · exact (sustains_write other host rawName _).bind fun _ _ => none_
  · exact none_.bind fun _ _ => named name
  · exact (sustains_write other host rawName _).bind fun _ _ => named name

/-- The scope of a closed part is sound if what is saved of it is. -/
theorem sustains_closedScope (p : Progress) (attributes : Attributes) (body : List Node)
    (saved : ∀ stash, p.stash = some stash → (Scope.mk stash (p.pointers.getD .empty)).Sound) :
    Sustains size (closedScope p attributes body : Pass σ Scope)
      ((Acts.otherwise other host).closedScope p attributes body)
      fun scope => scope.Sound ∧ ∀ stash, p.stash = some stash → scope.stash = stash := by
  unfold Acts.closedScope closedScope
  cases here : p.stash with
  | some stash => exact Sustains.pure ⟨saved stash here, fun _ same => Option.some.inj same⟩
  | none =>
    show Sustains size (newScope attributes body) ((Acts.otherwise other host).newScope attributes body) _
    obtain ⟨made, sound⟩ := Scope.ofListOr_eq other attributes
    unfold Acts.newScope newScope
    cases Node.closureFaults (Fields.names attributes) body with
    | cons fault _ => exact safe_fail fault
    | nil =>
      show Sustains size _ (match Scope.ofListOr other attributes with
        | .error fault => throw fault
        | .ok scope => return scope : Pass σ Scope) _
      rw [made]
      exact Sustains.pure ⟨sound, by rintro _ ⟨⟩⟩

end Values
end Pass
end PromptScript
