import PromptScript.Proofs.Resuming

/-! # Passes continue the straight walk

A first pass over a node continues the straight walk over it; a pass over a node that was stopped continues what
the marks on it say of the rest. -/
namespace PromptScript

/-! ## What a pass leaves -/

namespace Node

theorem cleared_finished (n : Node) : n.finished.cleared = n.cleared := by
  unfold finished
  cases n with
  | choice _ _ _ other _ | loop _ _ _ _ _ other _ => cases other <;> rfl
  | _ => rfl

theorem isDone_finished (n : Node) : n.finished.isDone = true := by cases n <;> rfl

theorem progress_cleared (n : Node) : n.cleared.progress = none := by
  cases n with
  | choice _ _ _ other _ | loop _ _ _ _ _ other _ => cases other <;> rfl
  | _ => rfl

mutual

theorem cleared_cleared : ∀ n : Node, n.cleared.cleared = n.cleared
  | .text .. | .comment .. | .config .. | .interpolation .. => rfl
  | .group _ body _ => by simp only [cleared, clearedAll_clearedAll body]
  | .choice _ _ body none _ => by simp only [cleared, clearedAll_clearedAll body]
  | .choice _ _ body (some other) _ => by simp only [cleared, clearedAll_clearedAll body, clearedAll_clearedAll other]
  | .loop _ _ _ _ body none _ => by simp only [cleared, clearedAll_clearedAll body]
  | .loop _ _ _ _ body (some other) _ => by simp only [cleared, clearedAll_clearedAll body, clearedAll_clearedAll other]
  | .element _ _ _ body _ => by simp only [cleared, clearedAll_clearedAll body]

theorem clearedAll_clearedAll : ∀ nodes : List Node, clearedAll (clearedAll nodes) = clearedAll nodes
  | [] => rfl
  | n :: r => by simp only [clearedAll, cleared_cleared n, clearedAll_clearedAll r]

end

theorem cleared_choice (span : Span) (test : Expr) (body : List Node) (other : Option (List Node)) (p : Option Progress) :
    (choice span test body other p).cleared = choice span test (clearedAll body) (other.map clearedAll) none := by
  cases other <;> rfl

theorem cleared_loop (span : Span) (e : Expr) (item : Binding) (index : Option Binding) (body : List Node)
    (other : Option (List Node)) (p : Option Progress) :
    (loop span e item index body other p).cleared =
      loop span e item index (clearedAll body) (other.map clearedAll) none := by
  cases other <;> rfl

/-- What a pass leaves of a node: the same but for marks, and where it stopped the marks of a stop. Within a step no
pass stops. -/
def Left (around : Surroundings) (n n' : Node) (flow : Flow) : Prop :=
  n'.cleared = n.cleared ∧ (flow = .stops → n'.Stopped ∧ around.inStep = false)

/-- What a pass leaves of nodes. -/
def LeftAll (around : Surroundings) (nodes nodes' : List Node) (flow : Flow) : Prop :=
  clearedAll nodes' = clearedAll nodes ∧ (flow = .stops → StoppedAll nodes' ∧ around.inStep = false)

/-- The marks of a node do not count, or there are none. -/
def Fresh (anew : Bool) (n : Node) : Prop := anew = true ∨ n.cleared = n

/-- The marks of nodes do not count, or there are none. -/
def FreshAll (anew : Bool) (nodes : List Node) : Prop := anew = true ∨ clearedAll nodes = nodes

variable {anew : Bool}

theorem Fresh.not_done {n : Node} (h : n.Fresh anew) : (!anew && n.isDone) = false := by
  rcases h with rfl | h
  · rfl
  · have none := n.progress_cleared
    rw [h] at none
    simp [isDone, none]

/-- Marks that do not count are as good as none. -/
theorem marks_of_fresh {p : Option Progress} (h : anew = true ∨ p = none) :
    (if anew then none else p) = none ∧ (if anew then {} else p.getD {} : Progress) = {} := by
  rcases h with rfl | rfl <;> simp

theorem clearedAll_untouched (anew : Bool) (nodes : List Node) :
    clearedAll (Pass.untouched anew nodes) = clearedAll nodes := by
  unfold Pass.untouched
  cases anew with
  | true => exact clearedAll_clearedAll nodes
  | false => rfl

theorem untouched_of_fresh {nodes : List Node} (h : FreshAll anew nodes) :
    Pass.untouched anew nodes = clearedAll nodes := by
  unfold Pass.untouched
  rcases h with rfl | h
  · rfl
  · rw [h, ite_self]

end Node

namespace Pass

variable {σ : Type} (eval : Evaluator σ) (options : Options)

/-! ## Tags -/

section Tags

variable {α : Type} {options} {s : PassState σ} {part : Pass σ (α × Flow)} {whole : Replies → Pass σ (Replies × Flow)}
  {again : α → Replies → Pass σ (Replies × Flow)} {left : α → Flow → Prop}

theorem continues_content {around : Surroundings} {span : Span} {kind : Option ContentKind} {values : Attributes}
    (h : Continues options s part whole again left) :
    Continues options s (content options around span kind values part)
      (fun rs => content options around span kind values (whole rs))
      (fun a rs => content options around span kind values (again a rs)) left := by
  have still := still_openContent (σ := σ) around span kind values
  refine continues_redo (fun c s' ran u _ => (still.runs ran).2 u) fun c s' ran => ?_
  obtain ⟨rfl, -⟩ := still.runs ran
  exact h.closing (apart_closeContent options _ _ _).aside

theorem openMessage_of_blank {around : Surroundings} {span : Span} {role : Option Role} {values : Attributes}
    {c : Role × Attributes} {s' u : PassState σ} (ran : Runs (openMessage options around span role values) s c s')
    (blank : u.Blank) : Runs (openMessage options around span role values) u c u := by
  unfold openMessage at ran ⊢
  split at ran
  · obtain ⟨_, _, fails, -⟩ := runs_bind.mp ran
    cases fails
  · next outside =>
    rw [if_neg outside]
    obtain ⟨_, s₁, -, rest⟩ := runs_bind.mp ran
    exact runs_bind.mpr ⟨(), u, flushContent_of_blank options blank, ((still_roleOf _ _ _).runs rest).2 u⟩

theorem continues_message {around : Surroundings} {span : Span} {role : Option Role} {values : Attributes}
    (h : ∀ s' : PassState σ, s'.response = s.response → (s.Blank → s' = s) → Continues options s' part whole again left) :
    Continues options s (message options around span role values part)
      (fun rs => message options around span role values (whole rs))
      (fun a rs => message options around span role values (again a rs)) left := by
  refine continues_redo (fun c s' ran u => openMessage_of_blank ran) fun c s' ran => ?_
  have same : s.Blank → s' = s := fun blank => (ran.unique (openMessage_of_blank ran blank)).2
  exact (h s' ((apart_openMessage options _ _ _ _).aside.response_eq ran) same).closing (apart_closeMessage options _ _ _).aside

/-- What is left to do of a step that was stopped: it takes the response. -/
def resumeStep (options : Options) (around : Surroundings) (span : Span) (tags : List Attribute) (values : Attributes)
    (rs : Replies) : Pass σ (Replies × Flow) :=
  into (fun _ _ => rs) (step options around span tags values (return ((), .goesOn)))

variable (options) in
/-- Nothing waits while a step takes its response, so there is no message to be made of it. -/
theorem result_takeReply_cons {span : Span} {head : StepHead} {r : List Content} {u : PassState σ} (blank : u.Blank)
    (rs : Replies) :
    (takeReply span head (r :: rs)).result u =
      (do closeStep span head r; flushContent options; return (rs, .goesOn) : Pass σ (Replies × Flow)).result u := by
  unfold takeReply
  rw [result_bind, result_bind]
  split
  · next u' closed =>
    obtain ⟨scope, rfl⟩ := closeStep_withScope closed
    exact (Runs.result_bind (f := fun _ => pure (rs, Flow.goesOn))
      (flushContent_of_blank options (blank.withScope scope))).symm
  · rfl

/-- A step that finds no response stops after its body, and leaves its settings. -/
theorem runs_step_of_quiet {around : Surroundings} {span : Span} {tags : List Attribute} {values : Attributes}
    {visited : Option α} {flow : Flow} {t : PassState σ} (quiet : s.response = none)
    (ran : Runs (step options around span tags values part) s (visited, flow) t) :
    ∃ head a flow' t₁, Runs (openStep around span tags values) s head s ∧ Runs part s (a, flow') t₁ ∧
      t = { t₁ with stepConfig := some head.config } ∧ visited = some a ∧ flow = .stops := by
  unfold step at ran
  obtain ⟨head, s₁, opened, ran₁⟩ := runs_bind.mp ran
  obtain ⟨rfl, -⟩ := (still_openStep around span tags values).runs opened
  obtain ⟨response, s₂, took, ran₂⟩ := runs_bind.mp ran₁
  obtain ⟨here, rfl⟩ := Prod.mk.inj took
  have same : ({ s₁ with response := none } : PassState σ) = s₁ := by rw [← quiet]
  rw [same, ← Except.ok.inj here, quiet] at ran₂
  obtain ⟨⟨a, flow'⟩, t₁, body, ran₃⟩ := runs_bind.mp ran₂
  obtain ⟨⟨⟩, t₂, settled, ran₄⟩ := runs_bind.mp ran₃
  obtain ⟨same, rfl⟩ := runs_pure.mp ran₄
  obtain ⟨rfl, rfl⟩ := Prod.mk.inj same
  obtain ⟨-, rfl⟩ := Prod.mk.inj settled
  exact ⟨head, a, flow', t₁, opened, body, rfl, rfl, rfl⟩

variable (options part) in
/-- A step that finds a response takes it. -/
theorem result_step_of_answered {around : Surroundings} {span : Span} {tags : List Attribute} {values : Attributes}
    {head : StepHead} (opened : ∀ u : PassState σ, Runs (openStep around span tags values) u head u) (r : List Content)
    (u : PassState σ) :
    (step options around span tags values part).result (u.answered r) =
      (do closeStep span head r; flushContent options; return (none, .goesOn) :
        Pass σ (Option α × Flow)).result { u with response := none } := by
  unfold step
  rw [(opened _).result_bind]
  have took : Runs takeResponse (u.answered r) (some r) { u with response := none } := rfl
  exact took.result_bind.trans rfl

/-- A step that finds no response is gone on with by taking one. Nothing stops in its body. -/
theorem continues_step {around : Surroundings} {span : Span} {tags : List Attribute} {values : Attributes}
    (quiet : s.response = none) (h : Continues options s part whole again left)
    (on : ∀ a flow, left a flow → flow = .goesOn) :
    Continues options s (step options around span tags values part)
      (straightStep options around span tags values whole)
      (fun _ => resumeStep options around span tags values)
      (fun visited flow => flow = .stops ∧ around.inStep = false ∧ ∃ a, visited = some a ∧ left a .goesOn) := by
  intro visited flow t ran
  obtain ⟨head, a, flow', t₁, opened, body, rfl, rfl, rfl⟩ := runs_step_of_quiet quiet ran
  have outside : around.inStep = false := by
    cases inside : around.inStep with
    | false => rfl
    | true => exact absurd opened (not_runs_openStep inside)
  obtain ⟨kept, tells⟩ := h a flow' t₁ body
  obtain rfl := on a flow' kept
  obtain ⟨silent, walks⟩ := tells
  refine ⟨⟨rfl, outside, a, rfl, kept⟩, fun u flushed => ?_⟩
  have still : u.response = none := ((apart_flushContent options).aside.response_eq flushed).trans silent
  have unanswered : ({ u with response := none } : PassState σ) = u := by rw [← still]
  have steps : ∀ rs, (straightStep options around span tags values whole rs).result s =
      (takeReply span head rs).result u := by
    intro rs
    unfold straightStep
    rw [opened.result_bind, (walks rs).result_bind]
    rw [(show Runs (leaveSettings head) t₁ () _ from rfl).result_bind]
    exact flushed.result_bind
  refine ⟨steps [], fun r rs => ?_⟩
  have takes := result_step_of_answered options (return ((), .goesOn) : Pass σ (Unit × Flow))
    ((still_openStep around span tags values).runs opened).2 r u
  rw [unanswered] at takes
  show _ = (into (fun _ _ => rs) (step options around span tags values _)).result _
  rw [steps (r :: rs), result_into_congr takes, result_takeReply_cons options (blank_of_flushContent options flushed)]
  simp only [Pass.into, bind_assoc, pure_bind]

end Tags

/-! ## Nodes

Each kind of node continues a walk over it if the part that is run of it does. -/

section Nodes

variable {options} {around : Surroundings} {span : Span} {s : PassState σ} {part : Pass σ (List Node × Flow)}
  {whole : Replies → Pass σ (Replies × Flow)} {body nodes : List Node} {other other' : Option (List Node)}
  {p : Option Progress}

theorem continues_group
    (h : Continues options s part whole (resumeAll eval options around) (Node.LeftAll around body)) :
    Continues options s (into (fun body _ => .group span body none) part) whole (resume eval options around)
      ((Node.group span body p).Left around) := by
  refine h.into ?_ ?_
  · rintro body' flow ⟨same, stopped⟩
    exact ⟨by simp only [Node.cleared, same], fun h => ⟨.group (stopped h).1, (stopped h).2⟩⟩
  · intro body' _
    funext rs
    rw [resume]

theorem continues_holds {test : Expr} {v : Value} {given : Option Pointers} (truthy : v.isTruthy = true)
    (bare : other'.map Node.clearedAll = other.map Node.clearedAll)
    (h : Continues options (s.withTable (given.getD s.table)) part whole (resumeAll eval options around)
      (Node.LeftAll around body)) :
    Continues options s (into (fun (body, table) flow =>
        .choice span test body other' (some { memo := some v, pointers := flow.tableLeft table })) (inView given part))
      (fun rs => within given (whole rs)) (resume eval options around)
      ((Node.choice span test body other p).Left around) := by
  refine h.inView.into ?_ ?_
  · rintro ⟨body', table⟩ flow ⟨same, stopped⟩
    refine ⟨by simp only [Node.cleared_choice, same, bare], ?_⟩
    rintro rfl
    exact ⟨.holds truthy (stopped rfl).1, (stopped rfl).2⟩
  · rintro ⟨body', table⟩ _
    funext rs
    cases other' with
    | none =>
      rw [resume]
      rfl
    | some other =>
      rw [resume]
      exact if_pos truthy

theorem continues_fails {test : Expr} {v : Value} {given : Option Pointers} (falsy : v.isTruthy = false)
    (bare : Node.clearedAll nodes = Node.clearedAll body) {other : List Node}
    (h : Continues options (s.withTable (given.getD s.table)) part whole (resumeAll eval options around)
      (Node.LeftAll around other)) :
    Continues options s (into (fun (other, table) flow =>
        .choice span test nodes (some other) (some { memo := some v, pointers := flow.tableLeft table }))
        (inView given part))
      (fun rs => within given (whole rs)) (resume eval options around)
      ((Node.choice span test body (some other) p).Left around) := by
  refine h.inView.into ?_ ?_
  · rintro ⟨other', table⟩ flow ⟨same, stopped⟩
    refine ⟨by simp only [Node.cleared, same, bare], ?_⟩
    rintro rfl
    exact ⟨.fails falsy (stopped rfl).1, (stopped rfl).2⟩
  · rintro ⟨other', table⟩ _
    funext rs
    rw [resume]
    exact if_neg (Bool.eq_false_iff.mp falsy)

theorem continues_loop {e : Expr} {item : Binding} {index : Option Binding} {items : List Value} {part : Pass σ (Rounds × Flow)}
    (bare : other'.map Node.clearedAll = other.map Node.clearedAll)
    (h : Continues options s part whole
      (fun r => resumeRounds item index r.table (resumeAll eval options around r.body)
        (straightAll eval options around body) items (r.round.getD 0))
      (RoundsLeft (Node.LeftAll around body) items)) :
    Continues options s (into (fun r _ => .loop span e item index r.body other'
        (some { memo := some (.array items), pointers := r.table, round := r.round })) part)
      whole (resume eval options around) ((Node.loop span e item index body other p).Left around) := by
  refine h.into ?_ ?_
  · rintro ⟨body', round, table⟩ flow ⟨⟨same, stopped⟩, place⟩
    refine ⟨by simp only [Node.cleared_loop, same, bare], fun h => ?_⟩
    obtain ⟨n, table, rfl, rfl, there⟩ := place h
    exact ⟨.round there (stopped h).1, (stopped h).2⟩
  · rintro r ⟨⟨same, -⟩, place⟩
    obtain ⟨n, table, round, there, lt⟩ := place rfl
    funext rs
    cases other' with
    | none =>
      rw [resume, straightAll_congr eval options around same]
      rfl
    | some other =>
      rw [resume, straightAll_congr eval options around same]
      cases items with
      | nil => cases lt
      | cons v items => rfl

theorem continues_idle {e : Expr} {item : Binding} {index : Option Binding} {given : Option Pointers}
    (bare : Node.clearedAll nodes = Node.clearedAll body) {other : List Node}
    (h : Continues options (s.withTable (given.getD s.table)) part whole (resumeAll eval options around)
      (Node.LeftAll around other)) :
    Continues options s (into (fun (other, table) flow => .loop span e item index nodes (some other)
        (some { memo := some (.array []), pointers := flow.tableLeft table })) (inView given part))
      (fun rs => within given (whole rs)) (resume eval options around)
      ((Node.loop span e item index body (some other) p).Left around) := by
  refine h.inView.into ?_ ?_
  · rintro ⟨other', table⟩ flow ⟨same, stopped⟩
    refine ⟨by simp only [Node.cleared, same, bare], ?_⟩
    rintro rfl
    exact ⟨.idle (stopped rfl).1, (stopped rfl).2⟩
  · rintro ⟨other', table⟩ _
    funext rs
    rw [resume]
    rfl

variable {attributes : List Attribute} {values : Attributes}

theorem continues_contentTag {kind : Option ContentKind}
    (h : Continues options s part whole (resumeAll eval options { around with inContent := true })
      (Node.LeftAll { around with inContent := true } body)) :
    Continues options s (into (fun body _ => .element span (.content kind) attributes body
        (some { memo := some (.object values) })) (content options around span kind values part))
      (fun rs => content options around span kind values (whole rs)) (resume eval options around)
      ((Node.element span (.content kind) attributes body p).Left around) := by
  refine (continues_content h).into ?_ ?_
  · rintro body' flow ⟨same, stopped⟩
    exact ⟨by simp only [Node.cleared, same], fun h => ⟨.content (stopped h).1, (stopped h).2⟩⟩
  · intro body' _
    funext rs
    rw [resume]
    rfl

theorem continues_messageTag {role : Option Role}
    (h : ∀ s' : PassState σ, s'.response = s.response → (s.Blank → s' = s) →
      Continues options s' part whole (resumeAll eval options { around with inMessage := true })
        (Node.LeftAll { around with inMessage := true } body)) :
    Continues options s (into (fun body _ => .element span (.message role) attributes body
        (some { memo := some (.object values) })) (message options around span role values part))
      (fun rs => message options around span role values (whole rs)) (resume eval options around)
      ((Node.element span (.message role) attributes body p).Left around) := by
  refine (continues_message h).into ?_ ?_
  · rintro body' flow ⟨same, stopped⟩
    exact ⟨by simp only [Node.cleared, same], fun h => ⟨.message (stopped h).1, (stopped h).2⟩⟩
  · intro body' _
    funext rs
    rw [resume]
    rfl

/-- The marks of a closed part do not depend on what they were before. -/
theorem continues_scopeTag {scope : Scope} {q : Progress} (marked : q.memo = some (.object values) ∧ q.done = false ∧ q.round = none)
    (h : Continues options (s.withScope scope) part whole (resumeAll eval options around) (Node.LeftAll around body)) :
    Continues options s (into (fun (body, scope) flow => .element span .scope attributes body
        (some (closedMarks q flow scope))) (inScope scope part))
      (fun rs => enclosed scope (whole rs)) (resume eval options around)
      ((Node.element span .scope attributes body p).Left around) := by
  obtain ⟨done, memo, pointers, round, stash⟩ := q
  obtain ⟨rfl, rfl, rfl⟩ := marked
  refine h.inScope.into ?_ ?_
  · rintro ⟨body', inner⟩ flow ⟨same, stopped⟩
    refine ⟨by simp only [Node.cleared, same], ?_⟩
    rintro rfl
    exact ⟨.scope (stopped rfl).1, (stopped rfl).2⟩
  · rintro ⟨body', inner⟩ _
    funext rs
    rw [resume]
    rfl

theorem continues_cons {n : Node} {r : List Node} {part : Pass σ (Node × Flow)}
    {rest : Pass σ (List Node × Flow)}
    (first : Continues options s part whole (resume eval options around) (n.Left around))
    (later : ∀ t : PassState σ, t.response = none → Continues options t rest
      (fun rs => straightAll eval options around r rs) (resumeAll eval options around) (Node.LeftAll around r))
    (bare : Node.clearedAll nodes = nodes ∧ nodes = Node.clearedAll r) :
    Continues options s (goingOn part (fun n => n :: nodes) fun n => into (fun r _ => n.finished :: r) rest)
      (fun rs => goingOn (whole rs) id fun rs => straightAll eval options around r rs) (resumeAll eval options around)
      (Node.LeftAll around (n :: r)) := by
  refine first.goingOn ?_ ?_
  · intro n' t _ kept quiet
    refine (later t quiet).into ?_ ?_
    · rintro r' flow ⟨same, stopped⟩
      refine ⟨by simp only [Node.clearedAll, Node.cleared_finished, kept.1, same], fun h => ?_⟩
      exact ⟨.done n'.isDone_finished (stopped h).1, (stopped h).2⟩
    · intro r' _
      funext rs
      rw [resumeAll, if_pos n'.isDone_finished]
  · rintro n' ⟨same, stopped⟩
    obtain ⟨stop, outside⟩ := stopped rfl
    refine ⟨⟨?_, fun _ => ⟨.here stop bare.1, outside⟩⟩, ?_⟩
    · simp only [Node.clearedAll, same, bare.1, ← bare.2]
    · funext rs
      rw [resumeAll, stop.isDone_eq, if_neg Bool.false_ne_true, bare.2, straightAll_clearedAll]

end Nodes

/-! ## First passes -/

theorem roundsFrom_fresh (item : Binding) (index : Option Binding) (items : List Value) (body : List Node)
    (resume again : Pass σ (List Node × Flow)) :
    roundsFrom {} item index items body resume again = rounds item index again items 0 body none := by
  cases items <;> rfl

theorem runs_itemsOf {e : Expr} {v : Value} {items : List Value} {s t : PassState σ}
    (h : Runs (itemsOf e v) s items t) : v = .array items ∧ t = s := by
  unfold itemsOf at h
  split at h
  · obtain ⟨rfl, rfl⟩ := runs_pure.mp h
    exact ⟨rfl, rfl⟩
  · cases h

mutual

/-- **A first pass over a node continues the straight walk.** -/
theorem walk_continues (around : Surroundings) (anew : Bool) : ∀ (n : Node), n.Fresh anew → ∀ s : PassState σ,
    s.response = none → Continues options s (walk eval options around anew n)
      (fun rs => straight eval options around n rs) (resume eval options around) (n.Left around)
  | .text span data p, _, s, quiet => by
    unfold walk straight
    exact continues_bind fun _ s' ran =>
      continues_pure (((apart_addSegment _).aside.response_eq ran).trans quiet) ⟨rfl, nofun⟩
  | .comment span data p, _, s, quiet => by
    unfold walk straight
    exact continues_pure quiet ⟨rfl, nofun⟩
  | .config span data p, _, s, quiet => by
    unfold walk straight
    exact continues_bind fun _ s' ran =>
      continues_pure (((apart_meetHeader _ _).aside.response_eq ran).trans quiet) ⟨rfl, nofun⟩
  | .interpolation span e p, _, s, quiet => by
    unfold walk straight
    exact continues_bind fun _ s' ran =>
      continues_pure (((aside_interpolate eval options _ _ _).response_eq ran).trans quiet) ⟨rfl, nofun⟩
  | .group span body p, fresh, s, quiet => by
    have inside : Node.FreshAll anew body := fresh.imp_right fun h => (Node.group.inj h).2.1
    have marks := Node.marks_of_fresh (fresh.imp_right fun h => (Node.group.inj h).2.2.symm)
    unfold walk straight
    rw [marks.1]
    exact continues_group eval (walkAll_continues around anew body inside s quiet)
  | .choice span test body none p, fresh, s, quiet => by
    have inside : Node.FreshAll anew body := fresh.imp_right fun h => (Node.choice.inj h).2.2.1
    have marks := Node.marks_of_fresh (fresh.imp_right fun h => (Node.choice.inj h).2.2.2.2.symm)
    unfold walk straight
    dsimp only
    rw [marks.2]
    refine continues_bind fun v s' ran => ?_
    have quiet' : s'.response = none := ((aside_evaluate eval test).response_eq ran).trans quiet
    cases truthy : v.isTruthy with
    | false => exact continues_pure quiet' ⟨by simp only [Node.cleared, Node.clearedAll_untouched], nofun⟩
    | true =>
      simp only [↓reduceIte]
      exact continues_holds eval truthy rfl (walkAll_continues around anew body inside _ quiet')
  | .choice span test body (some other) p, fresh, s, quiet => by
    have inside : Node.FreshAll anew body := fresh.imp_right fun h => (Node.choice.inj h).2.2.1
    have inOther : Node.FreshAll anew other :=
      fresh.imp_right fun h => Option.some.inj (Node.choice.inj h).2.2.2.1
    have marks := Node.marks_of_fresh (fresh.imp_right fun h => (Node.choice.inj h).2.2.2.2.symm)
    unfold walk straight
    dsimp only
    rw [marks.2]
    refine continues_bind fun v s' ran => ?_
    have quiet' : s'.response = none := ((aside_evaluate eval test).response_eq ran).trans quiet
    cases truthy : v.isTruthy with
    | false =>
      simp only [Bool.false_eq_true, ↓reduceIte]
      exact continues_fails eval truthy (Node.clearedAll_untouched anew body)
        (walkAll_continues around anew other inOther _ quiet')
    | true =>
      simp only [↓reduceIte]
      exact continues_holds eval truthy (congrArg some (Node.clearedAll_untouched anew other))
        (walkAll_continues around anew body inside _ quiet')
  | .loop span e item index body none p, fresh, s, quiet => by
    have marks := Node.marks_of_fresh (fresh.imp_right fun h => (Node.loop.inj h).2.2.2.2.2.2.symm)
    unfold walk straight
    dsimp only
    rw [marks.2]
    refine continues_bind fun v s₁ ran => continues_bind fun items s₂ given => ?_
    obtain ⟨rfl, rfl⟩ := runs_itemsOf given
    have quiet' : s₂.response = none := ((aside_evaluate eval e).response_eq ran).trans quiet
    rw [roundsFrom_fresh]
    exact continues_loop eval rfl (continues_rounds
      (fun s quiet => walkAll_continues around true body (.inl rfl) s quiet) (show items = items.drop 0 from rfl)
      quiet' ⟨Node.clearedAll_untouched anew body, nofun⟩)
  | .loop span e item index body (some other) p, fresh, s, quiet => by
    have inOther : Node.FreshAll anew other :=
      fresh.imp_right fun h => Option.some.inj (Node.loop.inj h).2.2.2.2.2.1
    have marks := Node.marks_of_fresh (fresh.imp_right fun h => (Node.loop.inj h).2.2.2.2.2.2.symm)
    unfold walk straight
    dsimp only
    rw [marks.2]
    refine continues_bind fun v s₁ ran => continues_bind fun items s₂ given => ?_
    obtain ⟨rfl, rfl⟩ := runs_itemsOf given
    have quiet' : s₂.response = none := ((aside_evaluate eval e).response_eq ran).trans quiet
    cases items with
    | nil =>
      exact continues_idle eval (Node.clearedAll_untouched anew body)
        (walkAll_continues around anew other inOther _ quiet')
    | cons v vs =>
      dsimp only
      rw [roundsFrom_fresh]
      exact continues_loop eval (congrArg some (Node.clearedAll_untouched anew other)) (continues_rounds
        (fun s quiet => walkAll_continues around true body (.inl rfl) s quiet)
        (show v :: vs = (v :: vs).drop 0 from rfl) quiet' ⟨Node.clearedAll_untouched anew body, nofun⟩)
  | .element span tag attributes body p, fresh, s, quiet => by
    have inside : Node.FreshAll anew body := fresh.imp_right fun h => (Node.element.inj h).2.2.2.1
    have marks := Node.marks_of_fresh (fresh.imp_right fun h => (Node.element.inj h).2.2.2.2.symm)
    unfold walk straight
    dsimp only
    rw [marks.2]
    refine continues_bind fun _ s₁ flushed => continues_bind fun values s₂ found => ?_
    have quiet₁ : s₁.response = none := ((apart_flushPassage options).aside.response_eq flushed).trans quiet
    have quiet₂ : s₂.response = none := ((aside_attributeValues eval attributes []).response_eq found).trans quiet₁
    cases tag with
    | content kind =>
      exact continues_contentTag eval (walkAll_continues { around with inContent := true } anew body inside s₂ quiet₂)
    | message role =>
      exact continues_messageTag eval fun s₃ kept _ =>
        walkAll_continues { around with inMessage := true } anew body inside s₃ (kept.trans quiet₂)
    | scope =>
      refine continues_bind fun scope s₃ made => ?_
      obtain ⟨rfl, -⟩ := (still_newScope values body).runs made
      exact continues_scopeTag eval ⟨rfl, rfl, rfl⟩
        (walkAll_continues around anew body inside (s₃.withScope scope) quiet₂)
    | step =>
      refine (continues_step quiet₂ (walkAll_continues { around with inStep := true } anew body inside s₂ quiet₂) ?_).into
        ?_ ?_
      · intro body' flow left
        cases flow with
        | goesOn => rfl
        | stops => exact absurd (left.2 rfl).2 Bool.noConfusion
      · rintro visited flow ⟨rfl, outside, body', rfl, same, -⟩
        exact ⟨by simp only [Node.cleared, Option.getD_some, same], fun _ => ⟨.step, outside⟩⟩
      · intro visited _
        funext rs
        rw [resume]
        rfl
    | reference =>
      intro _ _ _ ran
      cases ran

/-- A first pass over nodes continues the straight walk. -/
theorem walkAll_continues (around : Surroundings) (anew : Bool) : ∀ (nodes : List Node), Node.FreshAll anew nodes →
    ∀ s : PassState σ, s.response = none → Continues options s (walkAll eval options around anew nodes)
      (fun rs => straightAll eval options around nodes rs) (resumeAll eval options around) (Node.LeftAll around nodes)
  | [], _, s, quiet => continues_pure quiet ⟨rfl, nofun⟩
  | n :: r, fresh, s, quiet => by
    have here : n.Fresh anew := fresh.imp_right fun h => (List.cons.inj h).1
    have later : Node.FreshAll anew r := fresh.imp_right fun h => (List.cons.inj h).2
    unfold walkAll straightAll
    rw [here.not_done, if_neg Bool.false_ne_true]
    exact continues_cons eval (walk_continues around anew n here s quiet)
      (fun t quiet => walkAll_continues around anew r later t quiet)
      (by rw [Node.untouched_of_fresh later, Node.clearedAll_clearedAll]; exact ⟨rfl, rfl⟩)

end

/-! ## Passes that were stopped before -/

/-- A step that was stopped takes the response that waits. -/
theorem continues_resumeStep {α : Type} {around : Surroundings} {span : Span} {tags : List Attribute}
    {values : Attributes} {s : PassState σ} {r : List Content} (waits : s.response = some r) {part : Pass σ (α × Flow)} :
    Continues options s (step options around span tags values part) (resumeStep options around span tags values)
      (fun _ => resumeStep options around span tags values) (fun visited flow => flow = .goesOn ∧ visited = none) := by
  intro visited flow t ran
  obtain ⟨head, s₁, opened, -⟩ := runs_bind.mp ran
  obtain ⟨rfl, openedAgain⟩ := (still_openStep around span tags values).runs opened
  have same : s₁ = s₁.answered r := by rw [PassState.answered, ← waits]
  have took : Runs (do closeStep span head r; flushContent options; return (none, .goesOn) :
      Pass σ (Option α × Flow)) { s₁ with response := none } (visited, flow) t := by
    rw [same] at ran
    exact (result_step_of_answered options part openedAgain r s₁).symm.trans ran
  obtain ⟨⟨⟩, s₂, closed, took₁⟩ := runs_bind.mp took
  obtain ⟨⟨⟩, s₃, flushed, took₂⟩ := runs_bind.mp took₁
  obtain ⟨ends, rfl⟩ := runs_pure.mp took₂
  obtain ⟨rfl, rfl⟩ := Prod.mk.inj ends
  have quiet : s₃.response = none :=
    ((apart_flushContent options).aside.response_eq flushed).trans ((aside_closeStep _ _ _).response_eq closed)
  refine ⟨⟨rfl, rfl⟩, quiet, fun rs => runs_into.mpr ⟨none, ?_, rfl⟩⟩
  rw [same]
  refine (result_step_of_answered options _ openedAgain r s₁).trans ?_
  exact runs_bind.mpr ⟨(), s₂, closed, runs_bind.mpr ⟨(), s₃, flushed, rfl⟩⟩

/-- Where nothing waits a tag has nothing to make content of. -/
theorem continues_flushPassage {α : Type} {s : PassState σ} {k : Unit → Pass σ (α × Flow)}
    {whole : Replies → Pass σ (Replies × Flow)} {again : α → Replies → Pass σ (Replies × Flow)} {left : α → Flow → Prop}
    (blank : s.Blank) (h : Continues options s (k ()) whole again left) :
    Continues options s (flushPassage options >>= k) whole again left := by
  intro a flow t ran
  obtain ⟨⟨⟩, s', flushed, rest⟩ := runs_bind.mp ran
  obtain ⟨-, rfl⟩ := flushed.unique (flushPassage_of_blank options blank)
  exact h a flow t rest

variable {options} in
/-- The rounds of a loop that was stopped in one of them. -/
theorem continues_roundsFrom {item : Binding} {index : Option Binding} {items : List Value} {n : Nat}
    {table : Pointers} {memo : Value} {nodes : List Node} {resumed again : Pass σ (List Node × Flow)}
    {part body : Replies → Pass σ (Replies × Flow)} {resume : List Node → Replies → Pass σ (Replies × Flow)}
    {left : List Node → Flow → Prop} {s : PassState σ} (there : n < items.length)
    (first : Continues options (s.withTable table) resumed part resume left)
    (each : ∀ s : PassState σ, s.response = none → Continues options s again body resume left) :
    Continues options s
      (roundsFrom { memo := some memo, pointers := some table, round := some n } item index items nodes resumed again)
      (resumeRounds item index (some table) part body items n)
      (fun r => resumeRounds item index r.table (resume r.body) body items (r.round.getD 0))
      (RoundsLeft left items) := by
  have rest : items.drop n = items[n] :: items.drop (n + 1) := List.drop_eq_getElem_cons there
  have parts : roundsFrom { memo := some memo, pointers := some table, round := some n } item index items nodes
      resumed again = goingOn (inView (some table) resumed) (fun (body, table) => ⟨body, some n, some table⟩)
        fun (body, _) => rounds item index again (items.drop (n + 1)) (n + 1) body (some n) := by
    unfold roundsFrom
    simp only [Option.getD_some, rest]
  rw [parts]
  have here : Continues options s (inView (some table) resumed) (fun rs => within (some table) (part rs))
      (fun a rs => within (some a.2) (resume a.1 rs)) (fun a flow => left a.1 flow) :=
    first.inView
  refine here.goingOn ?_ ?_
  · rintro ⟨nodes, table⟩ t - kept quiet
    exact continues_rounds each rfl quiet kept
  · rintro ⟨nodes, table⟩ kept
    exact ⟨⟨kept, fun _ => ⟨n, table, rfl, rfl, there⟩⟩, rfl⟩

mutual

/-- **A pass over a node that was stopped continues what is left of the node.** -/
theorem walk_stopped_continues (around : Surroundings) : ∀ (n : Node), n.Stopped → ∀ (s : PassState σ)
    (r : List Content), s.Blank → s.response = some r → Continues options s (walk eval options around false n)
      (fun rs => resume eval options around n rs) (resume eval options around) (n.Left around)
  | .text .., h, _, _, _, _ | .comment .., h, _, _, _, _ | .config .., h, _, _, _, _
  | .interpolation .., h, _, _, _, _ => by cases h
  | .group span body p, h, s, r, blank, waits => by
    cases h with
    | group inside =>
      unfold walk resume
      exact continues_group eval (walkAll_stopped_continues around body inside s r blank waits)
  | .choice span test body none p, h, s, r, blank, waits => by
    cases h with
    | @holds _ _ _ _ v table truthy inside =>
      unfold walk resume
      simp only [Option.getD_some, remembered, pure_bind, truthy, ↓reduceIte, Bool.false_eq_true]
      exact continues_holds eval truthy rfl
        (walkAll_stopped_continues around body inside _ r (blank.withTable table) waits)
  | .choice span test body (some other) p, h, s, r, blank, waits => by
    cases h with
    | @holds _ _ _ _ v table truthy inside =>
      unfold walk resume
      simp only [Option.getD_some, remembered, pure_bind, truthy, ↓reduceIte, Bool.false_eq_true]
      exact continues_holds eval truthy rfl
        (walkAll_stopped_continues around body inside _ r (blank.withTable table) waits)
    | @fails _ _ _ _ v table falsy inside =>
      unfold walk resume
      simp only [Option.getD_some, remembered, pure_bind, falsy, ↓reduceIte, Bool.false_eq_true]
      exact continues_fails eval falsy rfl
        (walkAll_stopped_continues around other inside _ r (blank.withTable table) waits)
  | .loop span e item index body none p, h, s, r, blank, waits => by
    cases h with
    | @round _ _ _ _ _ _ items n table there inside =>
      unfold walk resume
      simp only [Option.getD_some, remembered, pure_bind, ↓reduceIte, Bool.false_eq_true, itemsOf]
      exact continues_loop eval rfl (continues_roundsFrom there
        (walkAll_stopped_continues around body inside _ r (blank.withTable table) waits)
        fun s quiet => walkAll_continues eval options around true body (.inl rfl) s quiet)
  | .loop span e item index body (some other) p, h, s, r, blank, waits => by
    cases h with
    | @round _ _ _ _ _ _ items n table there inside =>
      unfold walk resume
      cases items with
      | nil => cases there
      | cons v items =>
        simp only [Option.getD_some, remembered, pure_bind, ↓reduceIte, Bool.false_eq_true, itemsOf, Progress.items]
        exact continues_loop eval rfl (continues_roundsFrom there
          (walkAll_stopped_continues around body inside _ r (blank.withTable table) waits)
          fun s quiet => walkAll_continues eval options around true body (.inl rfl) s quiet)
    | @idle _ _ _ _ _ _ table inside =>
      unfold walk resume
      simp only [Option.getD_some, remembered, pure_bind, ↓reduceIte, Bool.false_eq_true, itemsOf, Progress.items]
      exact continues_idle eval rfl
        (walkAll_stopped_continues around other inside _ r (blank.withTable table) waits)
  | .element span tag attributes body p, h, s, r, blank, waits => by
    unfold walk resume
    refine continues_flushPassage options blank ?_
    cases h with
    | content inside =>
      simp only [Option.getD_some, rememberedAttributes, pure_bind, ↓reduceIte, Bool.false_eq_true]
      exact continues_contentTag eval (walkAll_stopped_continues { around with inContent := true } body inside s r blank waits)
    | message inside =>
      simp only [Option.getD_some, rememberedAttributes, pure_bind, ↓reduceIte, Bool.false_eq_true]
      refine continues_messageTag eval fun s' _ same => ?_
      rw [same blank]
      exact walkAll_stopped_continues { around with inMessage := true } body inside s r blank waits
    | @scope _ _ _ _ scope inside =>
      simp only [Option.getD_some, rememberedAttributes, closedScope, pure_bind, ↓reduceIte, Bool.false_eq_true]
      exact continues_scopeTag eval ⟨rfl, rfl, rfl⟩
        (walkAll_stopped_continues around body inside _ r (blank.withScope scope) waits)
    | step =>
      simp only [Option.getD_some, rememberedAttributes, pure_bind, ↓reduceIte, Bool.false_eq_true]
      refine (continues_resumeStep options waits).into ?_ ?_
      · rintro visited flow ⟨rfl, rfl⟩
        exact ⟨rfl, nofun⟩
      · rintro visited ⟨goes, -⟩
        cases goes

/-- A pass over nodes in one of which a pass was stopped continues what is left of them. -/
theorem walkAll_stopped_continues (around : Surroundings) : ∀ (nodes : List Node), Node.StoppedAll nodes →
    ∀ (s : PassState σ) (r : List Content), s.Blank → s.response = some r →
      Continues options s (walkAll eval options around false nodes) (fun rs => resumeAll eval options around nodes rs)
        (resumeAll eval options around) (Node.LeftAll around nodes)
  | [], h, _, _, _, _ => by cases h
  | n :: r, h, s, response, blank, waits => by
    unfold walkAll resumeAll
    cases h with
    | done finished later =>
      simp only [finished, Bool.not_false, Bool.true_and, ↓reduceIte]
      refine (walkAll_stopped_continues around r later s response blank waits).into ?_ ?_
      · rintro r' flow ⟨same, stopped⟩
        exact ⟨congrArg (n.cleared :: ·) same, fun h => ⟨.done finished (stopped h).1, (stopped h).2⟩⟩
      · intro r' _
        funext rs
        rw [resumeAll, if_pos finished]
    | here stopped unmarked =>
      simp only [stopped.isDone_eq, Bool.and_false, Bool.false_eq_true, ↓reduceIte]
      exact continues_cons eval (walk_stopped_continues around n stopped s response blank waits)
        (fun t quiet => walkAll_continues eval options around false r (.inr unmarked) t quiet)
        ⟨unmarked, unmarked.symm⟩

end

end Pass
end PromptScript
