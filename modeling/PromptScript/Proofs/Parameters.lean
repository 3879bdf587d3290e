import PromptScript.Proofs.Persistence
import PromptScript.Proofs.Uninterrupted
import PromptScript.Proofs.Unseen

/-! # Parameters that are not needed

Two chains over the same document, with parameters that agree on the names that the document needs, give the same in
every call, whatever they are answered. -/

/-! ## Passes that are gone on with

Two passes have stopped in the same step and left marks of twins. With the same response both go on alike: where they
stop again they leave marks of twins again. -/
namespace PromptScript

variable {σ α : Type}

namespace View

variable {below : View} {level : Level} {goal : Known} {r : List Content} {stash stash' : Stash}

/-- What is left of two passes, with the response that both have waited for. -/
abbrev Resumes (r : List Content) (stash stash' : Stash) (level : Level) (below : View) (goal : Known)
    {β : Type} (same : α → β → Prop) (left : Level → Stash → Stash → α → β → Prop) (part : Pass σ (α × Flow))
    (part' : Pass σ (β × Flow)) : Prop :=
  Abreast PassState.SameWorld (Reopened r stash stash' (level :: below)) part part' (below.Ended goal same left)

section Tags

variable {β : Type} {same : α → β → Prop} {left : Level → Stash → Stash → α → β → Prop} {part : Pass σ (α × Flow)}
  {part' : Pass σ (β × Flow)} (options : Options)

theorem resumes_content (around : Surroundings) (span : Span) (kind : Option ContentKind) (values : Attributes)
    (h : Resumes r stash stash' level below goal same left part part') :
    Resumes r stash stash' level below goal same left (Pass.content options around span kind values part)
      (Pass.content options around span kind values part') :=
  reopened_bind (Pass.blind_openContent _ _ _ _) (Pass.still_openContent _ _ _ _).apart fun _ =>
    ended_closing h (even_of_apart (Pass.blind_closeContent _ _ _ _) (Pass.apart_closeContent _ _ _ _))

theorem resumes_message (around : Surroundings) (span : Span) (role : Option Role) (values : Attributes)
    (h : Resumes r stash stash' level below goal same left part part') :
    Resumes r stash stash' level below goal same left (Pass.message options around span role values part)
      (Pass.message options around span role values part') :=
  reopened_bind (Pass.blind_openMessage _ _ _ _ _) (Pass.apart_openMessage _ _ _ _ _) fun _ =>
    ended_closing h (even_of_apart (Pass.blind_closeMessage _ _ _ _) (Pass.apart_closeMessage _ _ _ _))

/-- The step in which both have stopped takes the response, and goes on. -/
theorem resumes_step (around : Surroundings) (span : Span) (tags : List Attribute) (values : Attributes)
    (part : Pass σ (α × Flow)) (part' : Pass σ (β × Flow))
    (gives : ∀ x, goal x → level.known.and (stepResults tags) x) :
    Resumes r stash stash' level below goal (fun a b => a = none ∧ b = none) (fun _ _ _ _ _ => False)
      (Pass.step options around span tags values part) (Pass.step options around span tags values part') := by
  unfold Pass.step
  refine reopened_bind_of_yields (Pass.blind_openStep _ _ _ _) (Pass.still_openStep _ _ _ _).apart
    (yields_openStep around span tags values) fun head fine => ?_
  refine reopened_takeResponse.bind fun a b => .of_fact fun given => .of_fact fun given' => ?_
  subst given given'
  refine Even.visits (even_closeStep span head r) (fun _ => nofun) fun _ => ?_
  refine Even.leads (even_of_apart (Pass.blind_flushContent options) (Pass.apart_flushContent options)) fun _ => ?_
  exact visits_pure ⟨rfl, rfl⟩ fun x given => (gives x given).imp id (fine.2 x)

end Tags

/-- The round in which both have stopped is gone on with, and the other rounds follow. -/
theorem resumes_roundsFrom {around : Surroundings} {body : List Node} {inner : Level} {inGoal : Known}
    {table table' : Pointers} {items : List Value} {n : Nat} {memo : Value} {item : Binding} {index : Option Binding}
    {nodes nodes' : List Node} {resumed resumed' again : Pass σ (List Node × Flow)} (there : n < items.length)
    (twin : Scope.Twin (inner :: level :: below) ⟨stash, table⟩ ⟨stash', table'⟩)
    (first : Resumes r stash stash' inner (level :: below) inGoal (Node.SameAsAll body)
      (Node.LeftTwins around body inGoal (level :: below)) resumed resumed')
    (each : Visiting around body again)
    (needs : ∀ x ∈ ((Node.usesOfAll body).within (Binding.names item index)).needs, level.known x) :
    Resumes r stash stash' level below level.known (fun a b => Node.SameAsAll body a.body b.body)
      (Node.LeftRounds around body level.known items.length below)
      (Pass.roundsFrom { memo := some memo, pointers := some table, round := some n } item index items nodes
        resumed again)
      (Pass.roundsFrom { memo := some memo, pointers := some table', round := some n } item index items nodes'
        resumed' again) := by
  have rest : items.drop n = items[n] :: items.drop (n + 1) := List.drop_eq_getElem_cons there
  unfold Pass.roundsFrom
  simp only [Option.getD_some, rest]
  have total : n + 1 + (items.drop (n + 1)).length = items.length := by rw [List.length_drop]; omega
  refine ended_goingOn
    (reopened_inView (fun level => Node.LeftTwins around body inGoal (level :: below)) twin first)
    (fun level stash stash' a b marks => ?_) fun a b same => ?_
  · obtain ⟨knows, inner, twin, left⟩ := marks
    exact ⟨left.open_, left.same, knows, ⟨n, there, rfl, rfl⟩, inner, _, _, _, rfl, rfl, twin, left.twins⟩
  · rw [← total]
    exact visits_rounds each needs _ (n + 1) _ _ _ same

section Walk

variable (host : Host σ) (options : Options)

open Node

mutual

/-- **Both passes go on alike with a node in which they have stopped.** -/
theorem resumes_walk (around : Surroundings) {r : List Content} {stash stash' : Stash} {level : Level} {below : View}
    {goal : Known} {n n' : Node} (h : Node.Twin stash stash' level below goal n n') :
    Resumes r stash stash' level below goal (Node.SameAs n) (Node.LeftTwin around n goal below)
      (Pass.walk (Expr.eval host) options around false n) (Pass.walk (Expr.eval host) options around false n') :=
  match h with
  | .group inside => by
    unfold Pass.walk
    exact ended_group (resumes_walkAll around inside) rfl rfl
  | @Node.Twin.holds _ _ _ _ _ _ _ _ _ _ _ other other' _ _ _ truthy kept twin inside same => by
    cases other with
    | none =>
      obtain rfl : other' = none := Option.map_eq_none_iff.mp same.symm
      unfold Pass.walk
      simp only [Option.getD_some, Pass.remembered, pure_bind, truthy, ↓reduceIte, Bool.false_eq_true]
      exact ended_holds truthy kept (reopened_inView _ twin (resumes_walkAll around inside)) rfl rfl
    | some other =>
      obtain ⟨other', rfl, -⟩ := Option.map_eq_some_iff.mp same.symm
      unfold Pass.walk
      simp only [Option.getD_some, Pass.remembered, pure_bind, truthy, ↓reduceIte, Bool.false_eq_true]
      exact ended_holds truthy kept (reopened_inView _ twin (resumes_walkAll around inside)) rfl same.symm
  | .fails falsy kept twin inside same => by
    unfold Pass.walk
    simp only [Option.getD_some, Pass.remembered, pure_bind, falsy, ↓reduceIte, Bool.false_eq_true]
    exact ended_fails falsy kept (reopened_inView _ twin (resumes_walkAll around inside)) ⟨rfl, same.symm⟩
  | @Node.Twin.round _ _ _ _ _ _ _ _ _ _ _ _ _ other other' items _ _ _ there kept twin inside again same => by
    have each := visits_walkAll host options around
    cases other with
    | none =>
      obtain rfl : other' = none := Option.map_eq_none_iff.mp same.symm
      unfold Pass.walk
      simp only [Option.getD_some, Pass.remembered, pure_bind, ↓reduceIte, Bool.false_eq_true, Pass.itemsOf]
      rw [← Pass.walkAll_congr _ _ _ inside.cleared_eq]
      exact ended_loop kept again (resumes_roundsFrom there twin (resumes_walkAll around inside) (each _) again) rfl rfl
    | some other =>
      obtain ⟨other', rfl, -⟩ := Option.map_eq_some_iff.mp same.symm
      unfold Pass.walk
      cases items with
      | nil => cases there
      | cons v items =>
        simp only [Option.getD_some, Pass.remembered, pure_bind, ↓reduceIte, Bool.false_eq_true, Pass.itemsOf]
        rw [← Pass.walkAll_congr _ _ _ inside.cleared_eq]
        exact ended_loop kept again (resumes_roundsFrom there twin (resumes_walkAll around inside) (each _) again) rfl
          same.symm
  | .idle kept twin inside same => by
    unfold Pass.walk
    simp only [Option.getD_some, Pass.remembered, pure_bind, ↓reduceIte, Bool.false_eq_true, Pass.itemsOf]
    exact ended_idle kept (reopened_inView _ twin (resumes_walkAll around inside)) ⟨rfl, same.symm⟩
  | .content inside => by
    unfold Pass.walk
    refine reopened_bind (Pass.blind_flushPassage options) (Pass.apart_flushPassage options) fun _ => ?_
    simp only [Option.getD_some, Pass.rememberedAttributes, pure_bind, ↓reduceIte, Bool.false_eq_true]
    exact ended_element .content (fun _ => id) (resumes_content options around _ _ _
      (resumes_walkAll { around with inContent := true } inside)) rfl
  | .message inside => by
    unfold Pass.walk
    refine reopened_bind (Pass.blind_flushPassage options) (Pass.apart_flushPassage options) fun _ => ?_
    simp only [Option.getD_some, Pass.rememberedAttributes, pure_bind, ↓reduceIte, Bool.false_eq_true]
    exact ended_element .message (fun _ => id) (resumes_message options around _ _ _
      (resumes_walkAll { around with inMessage := true } inside)) rfl
  | .scope kept twin inside => by
    unfold Pass.walk
    refine reopened_bind (Pass.blind_flushPassage options) (Pass.apart_flushPassage options) fun _ => ?_
    simp only [Option.getD_some, Pass.rememberedAttributes, Pass.closedScope, pure_bind, ↓reduceIte, Bool.false_eq_true]
    exact ended_scope ⟨rfl, rfl, rfl⟩ ⟨rfl, rfl, rfl⟩ kept (reopened_inScope twin (resumes_walkAll around inside))
  | .step gives same => by
    unfold Pass.walk
    refine reopened_bind (Pass.blind_flushPassage options) (Pass.apart_flushPassage options) fun _ => ?_
    simp only [Option.getD_some, Pass.rememberedAttributes, pure_bind, ↓reduceIte, Bool.false_eq_true]
    refine ended_into (resumes_step options around _ _ _ _ _ gives) (fun _ => id) ?_ fun _ _ _ _ _ => False.elim
    rintro a b ⟨rfl, rfl⟩
    exact Node.SameAsAll.element ⟨rfl, same.symm⟩

theorem resumes_walkAll (around : Surroundings) {r : List Content} {stash stash' : Stash} {level : Level} {below : View}
    {goal : Known} {nodes nodes' : List Node} (h : Node.TwinAll stash stash' level below goal nodes nodes') :
    Resumes r stash stash' level below goal (Node.SameAsAll nodes) (Node.LeftTwins around nodes goal below)
      (Pass.walkAll (Expr.eval host) options around false nodes)
      (Pass.walkAll (Expr.eval host) options around false nodes') :=
  match h with
  | .done finished finished' same later => by
    unfold Pass.walkAll
    simp only [finished, finished', Bool.not_false, Bool.true_and, ↓reduceIte]
    exact ended_into (resumes_walkAll around later) (fun _ => id)
      (fun _ _ => Node.SameAs.cons ⟨rfl, same.symm⟩) fun _ _ _ _ _ left =>
        ⟨left.open_, Node.SameAs.cons ⟨rfl, same.symm⟩ left.same, .done finished finished' same left.twins⟩
  | .here stopped unmarked needs gives => by
    unfold Pass.walkAll
    simp only [stopped.isDone_eq.1, stopped.isDone_eq.2, Bool.and_false, Bool.false_eq_true, ↓reduceIte]
    refine ended_goingOn (resumes_walk around stopped)
      (fun level stash stash' a b left => ⟨left.open_, left.same.cons ⟨rfl, rfl⟩, .here left.twin unmarked needs gives⟩)
      fun a b same => ?_
    rw [Pass.walkAll_of_bare _ _ _ _ unmarked]
    refine ended_into (visits_walkAll host options around _ below _ needs) gives
      (fun c d later => same.finished.cons later) fun level stash stash' c d left =>
        ⟨left.open_, same.finished.cons left.same, ?_⟩
    exact .done (Node.isDone_finished a) (Node.isDone_finished b) (same.finished.1.trans same.finished.2.symm)
      (left.twins.fewer gives)

end

end Walk
end View
end PromptScript

/-! ## Chains with other parameters -/
namespace PromptScript

variable {σ : Type} (host : Host σ)

namespace Document

/-- Documents of two chains, with the scopes of these: no pass has been made over them, or both passes have stopped in
the same step, or both have come to the end. -/
inductive Twin : Bool → Document → Scope → Document → Scope → Prop
  | begun {d : Document} {scope scope' : Scope} {level : Level}
      (bare : Node.clearedAll d.body = d.body ∧ d.progress = none) (twin : Scope.Twin [level] scope scope')
      (needs : ∀ x ∈ (Node.usesOfAll d.body).needs, level.known x) : Twin false d scope d scope'
  | stopped {d d' : Document} {scope scope' : Scope} {level inner : Level} {goal : Known} {table table' : Pointers}
      (marks : d.progress = some { pointers := some table }) (marks' : d'.progress = some { pointers := some table' })
      (outer : Scope.Twin [level] scope scope')
      (twin : Scope.Twin [inner, level] ⟨scope.stash, table⟩ ⟨scope'.stash, table'⟩)
      (inside : Node.TwinAll scope.stash scope'.stash inner [level] goal d.body d'.body) :
      Twin true d scope d' scope'
  | finished {d d' : Document} {scope scope' : Scope} (finished : d.Finished) (finished' : d'.Finished) :
      Twin true d scope d' scope'

/-- What two passes over documents leave: they end alike, have gathered the same, and leave the world the same. -/
structure Alike (a b : Document × Flow) (s t : PassState σ) : Prop where
  flow : a.2 = b.2
  beside : s.Beside (fun m n => m.toWorld = n.toWorld) t
  twin : Twin true a.1 s.machine.scope b.1 t.machine.scope

section Visit

variable (options : Options) {d d' : Document} {known goal : Known}

/-- Where a pass goes on to the end, all it has visited is done. -/
theorem yields_viewed (table : Option Pointers) (nodes : List Node) :
    Yields (fun a => a.2 = .goesOn → ∀ n ∈ a.1.1, n.isDone = true)
      (Pass.inView table (Pass.walkAll (Expr.eval host) options {} false nodes) : Pass σ _) := by
  rintro s ⟨⟨body, left⟩, flow⟩ t ran rfl
  obtain ⟨t₁, visited, -, -⟩ := Pass.runs_inView.mp ran
  exact Pass.isDone_of_goesOn _ _ visited

theorem abreast_visit (before : PassState σ → PassState σ → Prop)
    (first : d.progress.getD {} = { pointers := (d.progress.getD {}).pointers })
    (first' : d'.progress.getD {} = { pointers := (d'.progress.getD {}).pointers })
    (h : Abreast PassState.SameWorld before
      (Pass.inView (d.progress.getD {}).pointers (Pass.walkAll (Expr.eval host) options {} false d.body))
      (Pass.inView (d'.progress.getD {}).pointers (Pass.walkAll (Expr.eval host) options {} false d'.body))
      (View.Ended [] known (fun a b => Node.SameAsAll d.body a.1 b.1)
        (View.Inside (fun level => Node.LeftTwins {} d.body goal [level]) [] known))) :
    Abreast PassState.SameWorld before (d.visit (Expr.eval host) options) (d'.visit (Expr.eval host) options) Alike := by
  unfold visit
  refine ((h.of_yields_right (yields_viewed host options _ _)).of_yields (yields_viewed host options _ _)).bind ?_
  rintro ⟨⟨body, table⟩, flow⟩ ⟨⟨body', table'⟩, flow'⟩
  refine .of_fact fun done => .of_fact fun done' s t ended => ?_
  cases ended with
  | goesOn alike here =>
    have worlds := here.2.imp fun m n shows => View.lasting_shows [] |>.failed shows
    refine ((Pass.blind_flushContent options fun _ _ => id).bind fun _ _ => .pure fun s t here => ?_) s t worlds
    exact ⟨rfl, here.2, .finished (done rfl) (done' rfl)⟩
  | stops level here marks =>
    -- What is left of the text goes into a message, and the cells stay what they are.
    let related (m n : Machine σ) : Prop := Machine.Twin [level] m n ∧
      View.Inside (fun level => Node.LeftTwins {} d.body goal [level]) [] known level m.scope.stash n.scope.stash
        (body, table) (body', table')
    have both : s.Beside related t := { here with machine := ⟨here.machine, marks⟩ }
    refine ((Pass.blind_flushContent options fun _ _ here => here.1.world).bind fun _ _ => .pure fun s t here => ?_)
      s t both
    obtain ⟨twin, knows, inner, views, left⟩ := here.2.machine
    exact ⟨rfl, here.2.imp fun _ _ h => h.1.world, .stopped (by rw [first]) (by rw [first']) twin.toTwin views left.twins⟩

/-- A pass over documents that are done finds nothing to do. -/
theorem abreast_visit_of_finished (finished : d.Finished) (finished' : d'.Finished) :
    Abreast PassState.SameWorld (PassState.Beside fun m n => m.toWorld = n.toWorld)
      (d.visit (Expr.eval host) options) (d'.visit (Expr.eval host) options) Alike := by
  unfold visit
  rw [Pass.walkAll_of_done _ _ finished, Pass.walkAll_of_done _ _ finished']
  have viewed : Abreast PassState.SameWorld (PassState.Beside fun m n : Machine σ => m.toWorld = n.toWorld)
      (Pass.inView (d.progress.getD {}).pointers (pure (d.body, .goesOn)))
      (Pass.inView (d'.progress.getD {}).pointers (pure (d'.body, .goesOn)))
      fun a b s t => (a.2 = .goesOn ∧ b.2 = .goesOn) ∧ (a.1.1 = d.body ∧ b.1.1 = d'.body) ∧
        s.Beside (fun m n => m.toWorld = n.toWorld) t :=
    fun s t here => .ok ⟨⟨rfl, rfl⟩, ⟨rfl, rfl⟩, { here with machine := here.machine }⟩
  refine viewed.bind fun ((body, table), flow) ((body', table'), flow') => .of_fact fun ends => .of_fact fun kept => ?_
  obtain ⟨⟨rfl, rfl⟩, rfl, rfl⟩ := And.intro ends kept
  refine (Pass.blind_flushContent options fun _ _ => id).bind fun _ _ => .pure fun s t here => ?_
  exact ⟨rfl, here.2, .finished finished finished'⟩

/-- **Passes over such documents do the same.** A response is there just if a pass has been made before. -/
theorem Twin.visit {started : Bool} {scope scope' : Scope} {response : Option (List Content)}
    (twin : Twin started d scope d' scope') (waits : response.isSome = started) (world : World σ) :
    Meet PassState.SameWorld Alike ((d.visit (Expr.eval host) options).run.run (.opening ⟨world, scope⟩ response))
      ((d'.visit (Expr.eval host) options).run.run (.opening ⟨world, scope'⟩ response)) := by
  cases twin with
  | @begun _ _ _ level bare twin needs =>
    obtain rfl : response = none := Option.not_isSome_iff_eq_none.mp (Bool.eq_false_iff.mp waits)
    have open_ : d.progress.getD {} = {} := by rw [bare.2]; rfl
    have visits := View.visits_inView (σ := σ) level.known (fun level => Node.LeftTwins {} d.body _ [level])
      fun level _ => View.visits_walkAll host options {} d.body [level] _ needs
    rw [← Pass.walkAll_of_bare _ _ _ _ bare.1] at visits
    exact abreast_visit host options (View.Quiet [] level.known) (by rw [open_]) (by rw [open_])
      (by rw [open_]; exact visits) _ _ ⟨rfl, ⟨level.left, level.right, twin, rfl⟩, rfl, rfl, rfl, rfl, rfl, rfl⟩
  | @stopped _ _ _ _ level _ _ _ _ marks marks' outer twin inside =>
    obtain ⟨r, rfl⟩ := Option.isSome_iff_exists.mp waits
    have resumes := View.reopened_inView (fun level => Node.LeftTwins {} d.body _ [level]) twin
      (View.resumes_walkAll host options {} inside (r := r))
    exact abreast_visit host options (View.Reopened r scope.stash scope'.stash [level]) (by rw [marks]; rfl)
      (by rw [marks']; rfl) (by rw [marks, marks']; exact resumes) _ _
      ⟨rfl, rfl, rfl, ⟨outer, rfl⟩, rfl, rfl, rfl, rfl, rfl, rfl⟩
  | finished finished finished' =>
    exact abreast_visit_of_finished host options finished finished' _ _ ⟨rfl, rfl, rfl, rfl, rfl, rfl, rfl⟩

/-- So the outcomes of the passes are the same but for the marks and the scopes. -/
theorem Twin.pass {started : Bool} {scope scope' : Scope} {response : Option (List Content)}
    (twin : Twin started d scope d' scope') (waits : response.isSome = started) (world : World σ) :
    Meet (fun m n => m.toWorld = n.toWorld)
      (fun a b m n => m.toWorld = n.toWorld ∧ b = { a with document := b.document, stash := b.stash } ∧
        Twin true a.document ⟨a.stash, scope.pointers⟩ b.document ⟨b.stash, scope'.pointers⟩)
      (d.pass (Expr.eval host) options response ⟨world, scope⟩)
      (d'.pass (Expr.eval host) options response ⟨world, scope'⟩) := by
  have both := twin.visit host options waits world
  unfold Document.pass
  rw [PassState.opening, PassState.opening] at both
  generalize ran : (d.visit (Expr.eval host) options).run.run _ = x at both ⊢
  generalize ran' : (d'.visit (Expr.eval host) options).run.run _ = y at both ⊢
  cases both with
  | error same => exact .error same
  | @ok a b s t alike =>
    have table : s.table = scope.pointers := (blank_of_visit _ _ ran).2
    have table' : t.table = scope'.pointers := (blank_of_visit _ _ ran').2
    obtain ⟨d, flow⟩ := a
    obtain ⟨d', flow'⟩ := b
    obtain ⟨flows, beside, twin⟩ := alike
    obtain rfl : flow = flow' := flows
    refine .ok ⟨beside.machine, ?_, ?_⟩
    · rw [beside.messages, beside.globalConfig, beside.stepConfig]
    · rw [← table, ← table']
      exact twin

end Visit

end Document

namespace Chain

/-- Two chains that differ in nothing but in marks and scopes, of which what is needed is the same. -/
structure Twin (chain other : Chain) : Prop where
  same : other = { chain with document := other.document, scope := other.scope }
  twin : Document.Twin chain.started chain.document chain.scope other.document other.scope

section Steps

variable {host} {chain other : Chain}

/-- A response is there just if the chain has begun. -/
theorem isSome_of_checkTurn {response : Option Response} (ready : chain.checkTurn response = .ok ()) :
    response.isSome = chain.started := by
  unfold checkTurn at ready
  split at ready
  · cases ready
  · generalize chain.started = started at ready ⊢
    generalize response.isSome = given at ready ⊢
    cases started <;> cases given <;> first | rfl | cases ready

theorem isSome_of_answer? {response : Option Response} {answer : Option Answer}
    (read : chain.answer? response = .ok answer) : answer.isSome = response.isSome := by
  cases response with
  | none => cases read; rfl
  | some r =>
    have read : (chain.answerOf r).map some = .ok answer := read
    cases h : chain.answerOf r with
    | error fault => rw [h] at read; cases read
    | ok a => rw [h] at read; cases read; rfl

/-- What follows alike passes is alike. -/
theorem Twin.advance (twin : Twin chain other) (answer : Option Answer) {a b : Outcome}
    (same : b = { a with document := b.document, stash := b.stash })
    (left : Document.Twin true a.document ⟨a.stash, chain.scope.pointers⟩ b.document ⟨b.stash, other.scope.pointers⟩) :
    (∃ fault, chain.advance answer a = .error fault ∧ other.advance answer b = .error fault) ∨
      ∃ next next' result, chain.advance answer a = .ok (next, result) ∧
        other.advance answer b = .ok (next', result) ∧ Twin next next' := by
  have alike := twin.same
  generalize other.document = d' at alike
  generalize other.scope = scope' at alike left
  generalize b.document = document at same left
  generalize b.stash = stash at same left
  subst alike same
  -- Neither the settings nor the messages look at marks and scopes.
  let config := Fields.merge ((a.globalConfig.or chain.config).getD []) (a.stepConfig.getD [])
  let turn : Turn := ⟨answer, a, config, default⟩
  let turn' : Turn := ⟨answer, { a with document, stash }, config, default⟩
  have first := @advance_eq chain turn rfl
  have second := @advance_eq { chain with document := d', scope := scope' } turn' rfl
  have sent : ({ chain with document := d', scope := scope' } : Chain).sent turn' = chain.sent turn := rfl
  rw [sent] at second
  cases form : chain.format.encode ⟨turn.config, chain.sent turn⟩ with
  | error fault =>
    rw [form] at first
    rw [show turn'.config = turn.config from rfl, form] at second
    exact .inl ⟨_, first, second⟩
  | ok exchange =>
    rw [form] at first
    rw [show turn'.config = turn.config from rfl, form] at second
    exact .inr ⟨_, _, _, first, second, rfl, left⟩

/-- **A step tells such chains from each other in nothing.** -/
theorem Twin.step (twin : Twin chain other) (response : Option Response) (world : World σ) :
    (∃ fault world', chain.step (Expr.eval host) response world = (.error fault, world') ∧
      other.step (Expr.eval host) response world = (.error fault, world')) ∨
      ∃ next next' result world', chain.step (Expr.eval host) response world = (.ok (next, result), world') ∧
        other.step (Expr.eval host) response world = (.ok (next', result), world') ∧ Twin next next' := by
  have goesOn := twin.advance
  have ready : other.checkTurn response = chain.checkTurn response := by rw [twin.same]; rfl
  have read : other.answer? response = chain.answer? response := by rw [twin.same]; rfl
  unfold Chain.step
  rw [ready, read]
  cases checked : chain.checkTurn response with
  | error fault => exact .inl ⟨fault, world, rfl, rfl⟩
  | ok open_ =>
    cases answered : chain.answer? response with
    | error fault => exact .inl ⟨fault, world, rfl, rfl⟩
    | ok answer =>
      have waits : (answer.map Answer.content).isSome = chain.started := by
        rw [Option.isSome_map, isSome_of_answer? answered, isSome_of_checkTurn checked]
      have both := twin.twin.pass host chain.options waits world
      have options : other.options = chain.options := by rw [twin.same]
      have source : other.source = chain.source := by rw [twin.same]
      dsimp only [bind, Except.bind]
      rw [options, source]
      generalize chain.document.pass _ _ _ _ = x at both ⊢
      generalize other.document.pass _ _ _ _ = y at both ⊢
      cases both with
      | error same => exact .inl ⟨_, _, rfl, by rw [same]⟩
      | @ok a b m n h =>
        obtain ⟨worlds, same, left⟩ := h
        rcases goesOn answer same left with ⟨fault, first, second⟩ | ⟨next, next', result, first, second, alike⟩
        · exact .inl ⟨fault, _, congrArg (·, _) first, by rw [worlds]; exact congrArg (·, _) second⟩
        · exact .inr ⟨next, next', result, _, congrArg (·, _) first, by rw [worlds]; exact congrArg (·, _) second, alike⟩

/-- Neither do any number of calls. -/
theorem Twin.calls_eq (twin : Twin chain other) (responses : List (Option Response)) (world : World σ) :
    calls (Expr.eval host) responses other world = calls (Expr.eval host) responses chain world :=
  calls_eq_of_step (fun twin => twin.step) twin responses world

end Steps

/-- **A document does not see what it does not need.** Chains over the same source, with parameters that agree on the
names it needs, give the same in every call. -/
theorem calls_eq_of_agree {source : String} {parameters parameters' : List (String × Value)} {format : Format}
    {options : Options} {first first' : Chain} (begins : start source parameters format options = .ok first)
    (begins' : start source parameters' format options = .ok first')
    (agree : ∀ x ∈ (Node.usesOfAll first.document.body).needs,
      Fields.get? x (Fields.ofList parameters) = Fields.get? x (Fields.ofList parameters'))
    (responses : List (Option Response)) (world : World σ) :
    calls (Expr.eval host) responses first' world = calls (Expr.eval host) responses first world := by
  obtain ⟨left, right, twin⟩ := Scope.twin_ofList agree
  unfold start at begins begins'
  cases parsed : Document.parse source.toList with
  | error diagnostic => rw [parsed] at begins; cases begins
  | ok d =>
    rw [parsed] at begins begins'
    obtain rfl := Except.ok.inj begins
    obtain rfl := Except.ok.inj begins'
    have bare := Grammar.unmarked_of_parse parsed
    exact Twin.calls_eq ⟨rfl, .begun bare twin fun _ => id⟩ responses world

end Chain
end PromptScript
