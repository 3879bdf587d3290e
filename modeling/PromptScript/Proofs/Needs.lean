import PromptScript.Proofs.Beside
import PromptScript.Proofs.Continuing
import PromptScript.Proofs.Cuts
import PromptScript.Proofs.Twins

/-! # What documents need to know

The names that the nodes of a document need, and those they surely give a value, in the order of a pass; and marks
that passes over the same node have left where they stopped, on machines that were twins. -/
namespace PromptScript

/-- The piece in a frame that has some names already. -/
def Uses.within (names : List String) (u : Uses) : Uses := ⟨u.needs.filter (· ∉ names), []⟩

/-- The names that a loop declares in each round. -/
def Binding.names (item : Binding) (index : Option Binding) : List String :=
  item.name :: (index.map Binding.name).toList

namespace Node

mutual

/-- The names that a node needs and gives. A scope reads nothing but its attributes. -/
def uses : Node → Uses
  | .text _ _ _ => .none
  | .comment _ _ _ => .none
  | .config _ _ _ => .none
  | .interpolation _ e _ => e.uses
  | .group _ body _ => usesOfAll body
  | .choice _ test body none _ => test.uses.next (usesOfAll body).maybe
  | .choice _ test body (some other) _ => test.uses.next ((usesOfAll body).maybe.next (usesOfAll other).maybe)
  | .loop _ items item index body none _ => items.uses.next ((usesOfAll body).within (Binding.names item index))
  | .loop _ items item index body (some other) _ =>
    items.uses.next (((usesOfAll body).within (Binding.names item index)).next (usesOfAll other).maybe)
  | .element _ tag attributes body _ =>
    (Attribute.usesOf attributes).next (match tag with
      | .content _ | .message _ => usesOfAll body
      | .step => (usesOfAll body).next ⟨[], stepResults attributes⟩
      | .scope | .reference => .none)

/-- The names that nodes need and give, one after the other. -/
def usesOfAll : List Node → Uses
  | [] => .none
  | n :: r => n.uses.next (usesOfAll r)

end

mutual

theorem uses_cleared : ∀ n : Node, n.cleared.uses = n.uses
  | .text .. | .comment .. | .config .. | .interpolation .. => rfl
  | .group _ body _ => usesOfAll_clearedAll body
  | .choice _ test body none _ => by simp only [cleared, uses, usesOfAll_clearedAll body]
  | .choice _ test body (some other) _ => by
    simp only [cleared, uses, usesOfAll_clearedAll body, usesOfAll_clearedAll other]
  | .loop _ items item index body none _ => by simp only [cleared, uses, usesOfAll_clearedAll body]
  | .loop _ items item index body (some other) _ => by
    simp only [cleared, uses, usesOfAll_clearedAll body, usesOfAll_clearedAll other]
  | .element _ tag attributes body _ => by simp only [cleared, uses, usesOfAll_clearedAll body]

theorem usesOfAll_clearedAll : ∀ nodes : List Node, usesOfAll (clearedAll nodes) = usesOfAll nodes
  | [] => rfl
  | n :: r => by simp only [clearedAll, usesOfAll, uses_cleared n, usesOfAll_clearedAll r]

end

/-! ## Marks of twins -/

mutual

/-- Two passes have stopped in a node, on scopes whose cells are given; the frame that the node stands in is given,
and the frames below. What is left of the node gives the names of `goal`. -/
inductive Twin : Stash → Stash → Level → View → Known → Node → Node → Prop
  | group {stash stash' : Stash} {level : Level} {below : View} {goal : Known} {span : Span} {body body' : List Node}
      (inside : TwinAll stash stash' level below goal body body') :
      Twin stash stash' level below goal (.group span body none) (.group span body' none)
  | holds {stash stash' : Stash} {level inner : Level} {below : View} {goal inGoal : Known} {span : Span} {test : Expr}
      {body body' : List Node} {other other' : Option (List Node)} {v : Value} {table table' : Pointers}
      (truthy : v.isTruthy = true) (kept : ∀ x, goal x → level.known x)
      (twin : Scope.Twin (inner :: level :: below) ⟨stash, table⟩ ⟨stash', table'⟩)
      (inside : TwinAll stash stash' inner (level :: below) inGoal body body')
      (same : other.map clearedAll = other'.map clearedAll) :
      Twin stash stash' level below goal (.choice span test body other (some { memo := some v, pointers := some table }))
        (.choice span test body' other' (some { memo := some v, pointers := some table' }))
  | fails {stash stash' : Stash} {level inner : Level} {below : View} {goal inGoal : Known} {span : Span} {test : Expr}
      {body body' other other' : List Node} {v : Value} {table table' : Pointers}
      (falsy : v.isTruthy = false) (kept : ∀ x, goal x → level.known x)
      (twin : Scope.Twin (inner :: level :: below) ⟨stash, table⟩ ⟨stash', table'⟩)
      (inside : TwinAll stash stash' inner (level :: below) inGoal other other')
      (same : clearedAll body = clearedAll body') :
      Twin stash stash' level below goal
        (.choice span test body (some other) (some { memo := some v, pointers := some table }))
        (.choice span test body' (some other') (some { memo := some v, pointers := some table' }))
  | round {stash stash' : Stash} {level inner : Level} {below : View} {goal inGoal : Known} {span : Span} {e : Expr}
      {item : Binding} {index : Option Binding} {body body' : List Node} {other other' : Option (List Node)}
      {items : List Value} {n : Nat} {table table' : Pointers} (there : n < items.length)
      (kept : ∀ x, goal x → level.known x)
      (twin : Scope.Twin (inner :: level :: below) ⟨stash, table⟩ ⟨stash', table'⟩)
      (inside : TwinAll stash stash' inner (level :: below) inGoal body body')
      (again : ∀ x ∈ ((usesOfAll body).within (Binding.names item index)).needs, level.known x)
      (same : other.map clearedAll = other'.map clearedAll) :
      Twin stash stash' level below goal
        (.loop span e item index body other
          (some { memo := some (.array items), pointers := some table, round := some n }))
        (.loop span e item index body' other'
          (some { memo := some (.array items), pointers := some table', round := some n }))
  | idle {stash stash' : Stash} {level inner : Level} {below : View} {goal inGoal : Known} {span : Span} {e : Expr}
      {item : Binding} {index : Option Binding} {body body' other other' : List Node} {table table' : Pointers}
      (kept : ∀ x, goal x → level.known x)
      (twin : Scope.Twin (inner :: level :: below) ⟨stash, table⟩ ⟨stash', table'⟩)
      (inside : TwinAll stash stash' inner (level :: below) inGoal other other')
      (same : clearedAll body = clearedAll body') :
      Twin stash stash' level below goal
        (.loop span e item index body (some other) (some { memo := some (.array []), pointers := some table }))
        (.loop span e item index body' (some other') (some { memo := some (.array []), pointers := some table' }))
  | content {stash stash' : Stash} {level : Level} {below : View} {goal : Known} {span : Span}
      {kind : Option ContentKind} {attributes : List Attribute} {body body' : List Node} {values : Attributes}
      (inside : TwinAll stash stash' level below goal body body') :
      Twin stash stash' level below goal
        (.element span (.content kind) attributes body (some { memo := some (.object values) }))
        (.element span (.content kind) attributes body' (some { memo := some (.object values) }))
  | message {stash stash' : Stash} {level : Level} {below : View} {goal : Known} {span : Span}
      {role : Option Role} {attributes : List Attribute} {body body' : List Node} {values : Attributes}
      (inside : TwinAll stash stash' level below goal body body') :
      Twin stash stash' level below goal
        (.element span (.message role) attributes body (some { memo := some (.object values) }))
        (.element span (.message role) attributes body' (some { memo := some (.object values) }))
  | scope {stash stash' : Stash} {level inner : Level} {below : View} {goal inGoal : Known} {span : Span}
      {attributes : List Attribute} {body body' : List Node} {values : Attributes} {scope scope' : Scope}
      (kept : ∀ x, goal x → level.known x) (twin : Scope.Twin [inner] scope scope')
      (inside : TwinAll scope.stash scope'.stash inner [] inGoal body body') :
      Twin stash stash' level below goal
        (.element span .scope attributes body
          (some { memo := some (.object values), stash := some scope.stash, pointers := some scope.pointers }))
        (.element span .scope attributes body'
          (some { memo := some (.object values), stash := some scope'.stash, pointers := some scope'.pointers }))
  | step {stash stash' : Stash} {level : Level} {below : View} {goal : Known} {span : Span}
      {attributes : List Attribute} {body body' : List Node} {values : Attributes}
      (gives : ∀ x, goal x → level.known.and (stepResults attributes) x)
      (same : clearedAll body = clearedAll body') :
      Twin stash stash' level below goal
        (.element span .step attributes body (some { memo := some (.object values) }))
        (.element span .step attributes body' (some { memo := some (.object values) }))

/-- Two passes have stopped in one of the nodes: those before it are done, those after it have no marks, and need
nothing but what is known when that node is done. -/
inductive TwinAll : Stash → Stash → Level → View → Known → List Node → List Node → Prop
  | done {stash stash' : Stash} {level : Level} {below : View} {goal : Known} {n n' : Node} {r r' : List Node}
      (finished : n.isDone = true) (finished' : n'.isDone = true) (same : n.cleared = n'.cleared)
      (later : TwinAll stash stash' level below goal r r') : TwinAll stash stash' level below goal (n :: r) (n' :: r')
  | here {stash stash' : Stash} {level : Level} {below : View} {goal between : Known} {n n' : Node} {r : List Node}
      (stopped : Twin stash stash' level below between n n') (unmarked : clearedAll r = r)
      (needs : ∀ x ∈ (usesOfAll r).needs, between x) (gives : ∀ x, goal x → between.and (usesOfAll r).gives x) :
      TwinAll stash stash' level below goal (n :: r) (n' :: r)

end

mutual

/-- The nodes differ in marks alone. -/
theorem Twin.cleared_eq {stash stash' : Stash} {level : Level} {below : View} {goal : Known} {n n' : Node}
    (h : Twin stash stash' level below goal n n') : n.cleared = n'.cleared :=
  match h with
  | .group inside => by simp only [cleared, inside.cleared_eq]
  | .holds _ _ _ inside same => by rw [cleared_choice, cleared_choice, inside.cleared_eq, same]
  | .fails _ _ _ inside same => by simp only [cleared, inside.cleared_eq, same]
  | .round _ _ _ inside _ same => by rw [cleared_loop, cleared_loop, inside.cleared_eq, same]
  | .idle _ _ inside same => by simp only [cleared, inside.cleared_eq, same]
  | .content inside => by simp only [cleared, inside.cleared_eq]
  | .message inside => by simp only [cleared, inside.cleared_eq]
  | .scope _ _ inside => by simp only [cleared, inside.cleared_eq]
  | .step _ same => by simp only [cleared, same]

theorem TwinAll.cleared_eq {stash stash' : Stash} {level : Level} {below : View} {goal : Known} {nodes nodes' : List Node}
    (h : TwinAll stash stash' level below goal nodes nodes') : clearedAll nodes = clearedAll nodes' :=
  match h with
  | .done _ _ same later => by simp only [clearedAll, same, later.cleared_eq]
  | .here stopped _ _ _ => by simp only [clearedAll, stopped.cleared_eq]

end

mutual

/-- What is left may be asked for less. -/
theorem Twin.fewer {stash stash' : Stash} {level : Level} {below : View} {goal goal' : Known} {n n' : Node}
    (less : ∀ x, goal' x → goal x) (h : Twin stash stash' level below goal n n') :
    Twin stash stash' level below goal' n n' :=
  match h with
  | .group inside => .group (inside.fewer less)
  | .holds truthy kept twin inside same => .holds truthy (fun x given => kept x (less x given)) twin inside same
  | .fails falsy kept twin inside same => .fails falsy (fun x given => kept x (less x given)) twin inside same
  | .round there kept twin inside again same =>
    .round there (fun x given => kept x (less x given)) twin inside again same
  | .idle kept twin inside same => .idle (fun x given => kept x (less x given)) twin inside same
  | .content inside => .content (inside.fewer less)
  | .message inside => .message (inside.fewer less)
  | .scope kept twin inside => .scope (fun x given => kept x (less x given)) twin inside
  | .step gives same => .step (fun x given => gives x (less x given)) same

theorem TwinAll.fewer {stash stash' : Stash} {level : Level} {below : View} {goal goal' : Known}
    {nodes nodes' : List Node} (less : ∀ x, goal' x → goal x)
    (h : TwinAll stash stash' level below goal nodes nodes') : TwinAll stash stash' level below goal' nodes nodes' :=
  match h with
  | .done finished finished' same later => .done finished finished' same (later.fewer less)
  | .here stopped unmarked needs gives => .here stopped unmarked needs fun x given => gives x (less x given)

end

theorem Twin.isDone_eq {stash stash' : Stash} {level : Level} {below : View} {goal : Known} {n n' : Node}
    (h : Twin stash stash' level below goal n n') : n.isDone = false ∧ n'.isDone = false := by
  cases h <;> exact ⟨rfl, rfl⟩

end Node
end PromptScript

/-! ## Surveys that find no defect

What is known where a survey has found no defect: a judgement on parts of a survey, with a rule for each way to put
them together and for each tag. -/
namespace PromptScript

namespace Survey

variable {α β : Type} {l : List Span}

/-- A part of a survey that finds no defect where there was one, and gives something good if it finds none. -/
def Cleanly (good : α → Prop) (part : Survey α) : Prop :=
  ∀ s : SurveyState, (part.run s).2.faults = [] → s.faults = [] ∧ good (part.run s).1

namespace Cleanly

variable {good : α → Prop} {fine : β → Prop} {x : Survey α} {f : α → Survey β}

theorem pure {a : α} (h : good a) : Cleanly good (Pure.pure a : Survey α) := fun _ clean => ⟨clean, h⟩

theorem bind (hx : Cleanly good x) (hf : ∀ a, Cleanly (fun b => good a → fine b) (f a)) : Cleanly fine (x >>= f) := by
  intro s clean
  obtain ⟨between, later⟩ := hf (x.run s).1 (x.run s).2 clean
  obtain ⟨before, first⟩ := hx s between
  exact ⟨before, later first⟩

theorem mono {good' : α → Prop} (h : Cleanly good x) (more : ∀ a, good a → good' a) : Cleanly good' x :=
  fun s clean => (h s clean).imp id (more _)

/-- A part of which only the defects count. -/
theorem andThen {good : α → Prop} (hx : Cleanly good x) (hf : ∀ a, Cleanly fine (f a)) : Cleanly fine (x >>= f) :=
  hx.bind fun a => (hf a).mono fun _ h _ => h

/-- A part that does not touch the defects. -/
theorem of_same (same : ∀ s, (x.run s).2.faults = s.faults) : Cleanly (fun _ => True) x :=
  fun s clean => ⟨(same s).symm.trans clean, trivial⟩

/-- Once a defect is found nothing more need be said. -/
theorem report (defect : Defect) (span : Span) : Cleanly (fun _ => False) (Survey.report defect span) :=
  fun _ clean => absurd clean (List.append_ne_nil_of_right_ne_nil _ (List.cons_ne_nil _ _))

theorem reported {f : PUnit → Survey β} {good : β → Prop} (defect : Defect) (span : Span)
    (h : ∀ a, Cleanly good (f a)) : Cleanly fine (Survey.report defect span >>= f) :=
  (report defect span).bind fun a => (h a).mono fun _ _ => False.elim

theorem reportIf {p : Prop} [Decidable p] {defect : Defect} {span : Span} (h : Cleanly good x) :
    Cleanly good (if p then Survey.report defect span >>= fun _ => x else x) := by
  split
  · exact reported defect span fun _ => h
  · exact h

/-- What is reported is not so. -/
theorem refuses {p : Prop} [Decidable p] {defect : Defect} {span : Span} (h : Cleanly good x) :
    Cleanly (fun a => ¬p ∧ good a) (if p then Survey.report defect span >>= fun _ => x else x) := by
  split
  · exact reported defect span fun _ => h
  · next not => exact h.mono fun _ here => ⟨not, here⟩

end Cleanly

/-- What a part cuts out has nothing to do with defects. -/
theorem Cuts.cleanly {part : Survey α} (h : Cuts l part) : Cleanly (fun _ => True) part :=
  fun s clean => ⟨List.length_eq_zero_iff.mp (Nat.le_zero.mp (Nat.le_trans (h.le s)
    (Nat.le_of_eq (congrArg List.length clean)))), trivial⟩

theorem reportMissing_cleanly (names given : Names) (span : Span) :
    Cleanly (fun _ => ∀ x ∈ names, x ∈ given) (reportMissing names given span) := by
  have reports (missing : List String) :
      Cleanly (fun _ => missing = []) (missing.forM fun name => report (.referenceMissingParameter name) span) := by
    cases missing with
    | nil => exact .pure rfl
    | cons name r => exact .reported _ _ fun _ => (Cuts.forM (fun _ => Cuts.report _ _) r).cleanly
  refine (reports _).mono fun _ none x there => ?_
  simpa using List.filter_eq_nil_iff.mp none x there

/-! ### Tags

A survey of a tag goes on from the usage after its attributes, of which `before` holds, and what the visit of the body
makes of a usage is `good`. -/

section Tags

variable {u : Usage} {attributes : List Attribute} {body : Usage → Survey Usage} {good : Usage → Usage → Prop}
  (h : ∀ u, Cleanly (good u) (body u)) (at_ : Setting) (span : Span)

include h

theorem content_cleanly (kind : Option ContentKind) {before : Names × Usage → Prop}
    (named : Cleanly before (attributeNames [] attributes [] u))
    (skipped : kind ≠ some .toolCall → before ([], u)) :
    Cleanly (fun u' => ¬at_.inContent = true ∧ ∃ names u₁, before (names, u₁) ∧ good u₁ u')
      (content at_ span kind attributes u body) := by
  refine Cleanly.refuses ?_
  by_cases call : kind = some .toolCall
  · rw [if_pos call]
    refine (Cleanly.of_same fun _ => rfl).andThen fun _ => named.bind fun (names, u₁) => ?_
    exact (Cleanly.reportIf (Cleanly.reportIf (h u₁))).mono fun _ inside first => ⟨names, u₁, first, inside⟩
  · rw [if_neg call]
    exact (h u).mono fun _ inside => ⟨[], u, skipped call, inside⟩

theorem messageBody_cleanly (role : Option Role) (u : Usage) : Cleanly (good u) (messageBody role u body) := by
  refine Cuts.reportCalls.cleanly.andThen fun _ => (h u).bind fun u' => ?_
  have rest : Cleanly (fun u₁ => good u u' → good u u₁) (do dropCalls; return u') :=
    Cuts.dropCalls.cleanly.andThen fun _ => .pure id
  split
  · exact Cuts.reportCalls.cleanly.andThen fun _ => rest
  · exact rest

theorem message_cleanly (role : Option Role) {before : Names × Usage → Prop}
    (named : Cleanly before (attributeNames [] attributes [] u)) :
    Cleanly (fun u' => ¬(at_.inContent || at_.inMessage) = true ∧ ∃ names u₁, before (names, u₁) ∧ good u₁ u')
      (message at_ span role attributes u body) := by
  refine Cleanly.refuses (named.bind fun (names, u₁) => ?_)
  have done : Cleanly (fun _ => True) (Pure.pure u₁ : Survey Usage) := .pure trivial
  dsimp only
  split
  · exact .reported _ _ fun _ => done
  · split
    · exact .reported _ _ fun _ => done
    · exact (messageBody_cleanly h _ u₁).mono fun _ inside first => ⟨names, u₁, first, inside⟩

theorem closed_cleanly {before : Names × Usage → Prop}
    (named : Cleanly before (attributeNames [] attributes [] u)) :
    Cleanly (fun u' => ∃ names inner, before (names, u') ∧ good ⟨u'.allowed, [], names⟩ inner ∧ ∀ x ∈ inner.used, x ∈ names)
      (closed span attributes u body) := by
  refine named.bind fun (names, u₁) => (h _).bind fun inner => (reportMissing_cleanly inner.used names span).bind fun _ => ?_
  exact .pure fun given inside first => ⟨names, inner, first, inside, given⟩

theorem step_cleanly {before : Names × Usage → Prop}
    (named : Cleanly before (attributeNames stepResultNames attributes [] u)) :
    Cleanly (fun u' => ¬at_.inStep = true ∧ ∃ names u₁ u₂, before (names, u₁) ∧ good u₁ u₂ ∧
        u' = u₂.defineAll (stepResults attributes))
      (step at_ span attributes u body) := by
  refine (Cleanly.of_same fun _ => rfl).andThen fun _ => Cleanly.refuses (named.bind fun (names, u₁) => ?_)
  exact (h u₁).bind fun u₂ => .pure fun inside first => ⟨names, u₁, u₂, first, inside, rfl⟩

omit h in
theorem names_of_loopNames {names : List String} {bindings : List Binding} (found : loopNames u bindings = .ok names) :
    names = bindings.map Binding.name := by
  induction bindings generalizing names with
  | nil => exact (Except.ok.inj found).symm
  | cons b r ih =>
    unfold loopNames at found
    split at found
    · cases found
    · cases later : loopNames u r with
      | error b => rw [later] at found; cases found
      | ok rest =>
        rw [later] at found
        obtain rfl := Except.ok.inj found
        rw [ih later, List.map_cons]

theorem loopBody_cleanly (item : Binding) (index : Option Binding) (u : Usage) :
    Cleanly (fun u' => ∃ branch, good (u.defineAll (Binding.names item index)) branch ∧ u' = u.absorb branch)
      (loopBody item index u body) := by
  unfold loopBody
  split
  · exact .reported _ _ fun _ => (.pure trivial : Cleanly (fun _ => True) (Pure.pure u : Survey Usage))
  · next names found =>
    have named : names = Binding.names item index := by
      rw [names_of_loopNames found]
      cases index <;> rfl
    subst named
    exact (h _).bind fun branch => .pure fun inside => ⟨branch, inside, rfl⟩

end Tags

/-! ### References -/

theorem include?_cleanly (loader : Loader) (including : Include) (span : Span) (path : String) (given : Names) :
    Cleanly (fun _ => True) (include? loader including span path given) := by
  have reports {α : Type} (defect : Defect) (a : α) :
      Cleanly (fun _ => True) (do report defect span; return a : Survey α) :=
    .reported _ _ fun _ => (.pure trivial : Cleanly (fun _ => True) (Pure.pure a : Survey α))
  refine Cuts.get.cleanly.andThen fun s => ?_
  dsimp only
  split
  · exact reports _ _
  · split
    · exact reports _ _
    · exact reports _ _
    · refine (Cleanly.of_same fun _ => rfl).andThen fun _ => ?_
      refine (Cuts.reportMissing _ given span).cleanly.andThen fun _ => ?_
      refine (Cuts.forM (fun _ => Cuts.report _ _) _).cleanly.andThen fun _ => ?_
      exact (Cleanly.of_same fun _ => rfl).andThen fun _ => .pure trivial

theorem replaceReference_cleanly (loader : Loader) (including : Include) (span : Span) (attributes : List Attribute)
    (path : String) (given : Names) :
    Cleanly (fun _ => True) (replaceReference loader including span attributes path given) :=
  Cuts.get.cleanly.andThen fun _ => (include?_cleanly loader including span path given).andThen fun _ =>
    Cuts.get.cleanly.andThen fun _ => Cleanly.of_same fun _ => rfl

/-- A reference has no body, and is otherwise no more to the usage than its attributes. -/
theorem follow_cleanly {u : Usage} {attributes : List Attribute} {before : Names × Usage → Prop}
    (loader : Option Loader) (including : Option Include) (span : Span)
    (named : Cleanly before (attributeNames ["path"] attributes [] u)) (body : List Node) :
    Cleanly (fun u' => body = [] ∧ ∃ names, before (names, u')) (follow loader including span attributes body u) := by
  cases body with
  | cons => exact .reported _ _ fun _ => (.pure trivial : Cleanly (fun _ => True) (Pure.pure u : Survey Usage))
  | nil =>
    refine named.bind fun (names, u₁) => ?_
    have done : Cleanly (fun _ => True) (Pure.pure u₁ : Survey Usage) := .pure trivial
    have kept : Cleanly (fun u' => u' = u₁) (Pure.pure u₁ : Survey Usage) := .pure rfl
    suffices h : Cleanly (fun u' => u' = u₁) (if _ then _ else _) from
      h.mono fun _ same first => ⟨rfl, names, same ▸ first⟩
    split
    · exact .reported _ _ fun _ => done
    · split
      · exact .reported _ _ fun _ => kept
      · exact .reported _ _ fun _ => kept
      · exact kept
      · exact (replaceReference_cleanly _ _ _ _ _ _).andThen fun _ => kept

/-! ### Documents -/

theorem visit_cleanly {options : SurveyOptions} {d : Document} {good : Usage → Prop}
    (walked : Cleanly good (walkAll options.check (follow options.loader (including options.loader referenceLimit))
      { atRoot := true } d.body (Usage.start (options.parameters.map Names.ofList)))) :
    Cleanly good (visit options d) :=
  walked.bind fun _ => Cuts.get.cleanly.andThen fun _ => Cleanly.reportIf (.pure id)

end Survey

/-- What holds where the survey of a document finds no defect holds of a report without diagnostics. -/
theorem Source.of_clean {source : Source} {options : SurveyOptions} {d : Document} {good : Usage → Prop}
    (parsed : Document.parse source.content.toList = .ok d) (clean : (source.survey options none).diagnostics = [])
    (h : Survey.Cleanly good (Survey.visit options d)) :
    ∃ u, good u ∧ (source.survey options none).parameters = u.used.union (u.allowed.getD []) := by
  rw [Source.survey_of_parse parsed] at clean ⊢
  exact ⟨_, (h _ (List.map_eq_nil_iff.mp clean)).2, rfl⟩

end PromptScript
