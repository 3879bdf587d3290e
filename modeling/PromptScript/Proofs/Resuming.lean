import PromptScript.Proofs.Straight

/-! # Going on where a pass stopped

What a pass leaves at a step is marked on the nodes around it; `resume` goes on from these marks straight to the
end. `Continues` relates a part of a pass to a walk that no step interrupts: as far as the part gets they do the
same, and where it stops, what the marks say of the rest does what the walk has still to do. It holds of every
node, for a first pass (`walk_continues`) and for a pass that was stopped before (`walk_stopped_continues`). -/
namespace PromptScript

/-! ## Marks of a stop -/

/-- The items of a loop, as its marks tell. -/
def Progress.items (p : Progress) : List Value :=
  match p.memo with
  | some (.array items) => items
  | _ => []

/-- The attributes of a tag, as its marks tell. -/
def Progress.attributes (p : Progress) : Attributes :=
  match p.memo with
  | some (.object fields) => fields
  | _ => []

mutual

/-- A pass has stopped in the node. -/
inductive Node.Stopped : Node → Prop
  | group {span : Span} {body : List Node} (inside : StoppedAll body) : Stopped (.group span body none)
  | holds {span : Span} {test : Expr} {body : List Node} {other : Option (List Node)} {v : Value} {table : Pointers}
      (truthy : v.isTruthy = true) (inside : StoppedAll body) :
      Stopped (.choice span test body other (some { memo := some v, pointers := some table }))
  | fails {span : Span} {test : Expr} {body other : List Node} {v : Value} {table : Pointers}
      (falsy : v.isTruthy = false) (inside : StoppedAll other) :
      Stopped (.choice span test body (some other) (some { memo := some v, pointers := some table }))
  | round {span : Span} {e : Expr} {item : Binding} {index : Option Binding} {body : List Node}
      {other : Option (List Node)} {items : List Value} {n : Nat} {table : Pointers} (there : n < items.length)
      (inside : StoppedAll body) :
      Stopped (.loop span e item index body other
        (some { memo := some (.array items), pointers := some table, round := some n }))
  | idle {span : Span} {e : Expr} {item : Binding} {index : Option Binding} {body other : List Node}
      {table : Pointers} (inside : StoppedAll other) :
      Stopped (.loop span e item index body (some other) (some { memo := some (.array []), pointers := some table }))
  | content {span : Span} {kind : Option ContentKind} {attributes : List Attribute} {body : List Node}
      {values : Attributes} (inside : StoppedAll body) :
      Stopped (.element span (.content kind) attributes body (some { memo := some (.object values) }))
  | message {span : Span} {role : Option Role} {attributes : List Attribute} {body : List Node}
      {values : Attributes} (inside : StoppedAll body) :
      Stopped (.element span (.message role) attributes body (some { memo := some (.object values) }))
  | scope {span : Span} {attributes : List Attribute} {body : List Node} {values : Attributes} {scope : Scope}
      (inside : StoppedAll body) :
      Stopped (.element span .scope attributes body
        (some { memo := some (.object values), stash := some scope.stash, pointers := some scope.pointers }))
  | step {span : Span} {attributes : List Attribute} {body : List Node} {values : Attributes} :
      Stopped (.element span .step attributes body (some { memo := some (.object values) }))

/-- A pass has stopped in one of the nodes: those before it are done, those after it have no marks. -/
inductive Node.StoppedAll : List Node → Prop
  | done {n : Node} {r : List Node} (finished : n.isDone = true) (later : StoppedAll r) : StoppedAll (n :: r)
  | here {n : Node} {r : List Node} (stopped : n.Stopped) (unmarked : Node.clearedAll r = r) : StoppedAll (n :: r)

end

theorem Node.Stopped.isDone_eq {n : Node} (h : n.Stopped) : n.isDone = false := by
  cases h <;> rfl

namespace Pass

variable {σ : Type} (eval : Evaluator σ) (options : Options)

/-- The rounds of a loop that are left, from the one with number `n`, which was stopped. -/
def resumeRounds (item : Binding) (index : Option Binding) (table : Option Pointers)
    (resume body : Replies → Pass σ (Replies × Flow)) (items : List Value) (n : Nat) (rs : Replies) :
    Pass σ (Replies × Flow) :=
  goingOn (within table (resume rs)) id fun rs => straightRounds item index body (items.drop (n + 1)) (n + 1) rs

mutual

/-- Goes on straight from where a pass stopped in a node. -/
def resume (around : Surroundings) : Node → Replies → Pass σ (Replies × Flow)
  | .group _ body _, rs => resumeAll around body rs
  | .choice _ _ body none p, rs => within (p.getD {}).pointers (resumeAll around body rs)
  | .choice _ _ body (some other) p, rs =>
    if ((p.getD {}).memo.getD .undefined).isTruthy then within (p.getD {}).pointers (resumeAll around body rs)
    else within (p.getD {}).pointers (resumeAll around other rs)
  | .loop _ _ item index body none p, rs =>
    resumeRounds item index (p.getD {}).pointers (resumeAll around body) (straightAll eval options around body)
      (p.getD {}).items ((p.getD {}).round.getD 0) rs
  | .loop _ _ item index body (some other) p, rs =>
    match (p.getD {}).items with
    | [] => within (p.getD {}).pointers (resumeAll around other rs)
    | items =>
      resumeRounds item index (p.getD {}).pointers (resumeAll around body) (straightAll eval options around body)
        items ((p.getD {}).round.getD 0) rs
  | .element span tag attributes body p, rs =>
    let p := p.getD {}
    match tag with
    | .content kind => content options around span kind p.attributes (resumeAll { around with inContent := true } body rs)
    | .message role => message options around span role p.attributes (resumeAll { around with inMessage := true } body rs)
    | .scope => enclosed ⟨p.stash.getD #[], p.pointers.getD .empty⟩ (resumeAll around body rs)
    -- The body has been run; the response is there.
    | .step => into (fun _ _ => rs) (step options around span attributes p.attributes (return ((), .goesOn)))
    | .reference => return (rs, .goesOn)
  | _, rs => return (rs, .goesOn)

/-- Goes on from the node in which a pass stopped. -/
def resumeAll (around : Surroundings) : List Node → Replies → Pass σ (Replies × Flow)
  | [], rs => return (rs, .goesOn)
  | n :: r, rs =>
    if n.isDone then resumeAll around r rs
    else goingOn (resume around n rs) id fun rs => straightAll eval options around r rs

end

/-! ## Continuing -/

/-- What a part of a pass that led from `s` to `t` tells of a walk. Where it went on, so does the walk. Where it
stopped, the walk is cut if no response is left; with one it does, once all content is a message, what `again`
does. -/
def Tells (s : PassState σ) (whole : Replies → Pass σ (Replies × Flow)) (t : PassState σ)
    (again : Replies → Pass σ (Replies × Flow)) : Flow → Prop
  | .goesOn => t.response = none ∧ ∀ rs, Runs (whole rs) s (rs, .goesOn) t
  | .stops => ∀ u, Runs (flushContent options) t () u → Runs (whole []) s ([], .stops) u ∧
      ∀ r rs, (whole (r :: rs)).result s = (again rs).result (u.answered r)

/-- A part of a pass continues a walk: all that it may leave meets `left`, and tells of the walk what is then to be
done again. -/
def Continues {α : Type} (s : PassState σ) (part : Pass σ (α × Flow)) (whole : Replies → Pass σ (Replies × Flow))
    (again : α → Replies → Pass σ (Replies × Flow)) (left : α → Flow → Prop) : Prop :=
  ∀ a flow t, Runs part s (a, flow) t → left a flow ∧ Tells options s whole t (again a) flow

variable {options} {s s' t : PassState σ} {flow : Flow}

section Tells

variable {whole whole' again again' : Replies → Pass σ (Replies × Flow)}

/-- A walk that comes to where another begins. -/
theorem Tells.of_result_eq (h : Tells options s' whole' t again flow)
    (same : ∀ rs, (whole rs).result s = (whole' rs).result s') : Tells options s whole t again flow := by
  cases flow with
  | goesOn => exact ⟨h.1, fun rs => (same rs).trans (h.2 rs)⟩
  | stops => exact fun u flushed => ⟨(same []).trans (h u flushed).1, fun r rs => (same _).trans ((h u flushed).2 r rs)⟩

/-- What is to be done again may be told in another way. -/
theorem Tells.of_again_eq (h : Tells options s whole t again flow)
    (same : flow = .stops → ∀ (u : PassState σ) rs, u.Blank → (again rs).result u = (again' rs).result u) :
    Tells options s whole t again' flow := by
  cases flow with
  | goesOn => exact h
  | stops =>
    intro u flushed
    have blank := blank_of_flushContent options flushed
    exact ⟨(h u flushed).1, fun r rs => ((h u flushed).2 r rs).trans (same rfl _ rs (blank.answered r))⟩

/-- Content becomes a message in one scope as it does in another. -/
theorem flush_inside {scope : Scope} {u : PassState σ} (h : Runs (flushContent options) (t.withScope scope) () u) :
    Runs (flushContent options) t () (u.withScope t.machine.scope) ∧ u = u.withScope scope := by
  have inside := (apart_flushContent options).runs_withScope h t.machine.scope
  have here := (apart_flushContent options).runs_withScope h scope
  exact ⟨inside, (h.unique here).2⟩

theorem Tells.within {given : Option Pointers}
    (h : Tells options (s.withTable (given.getD s.table)) whole t again flow) :
    Tells options s (fun rs => within given (whole rs)) (t.withTable s.table)
      (fun rs => Pass.within (some t.table) (again rs)) flow := by
  cases flow with
  | goesOn =>
    obtain ⟨quiet, on⟩ := h
    exact ⟨quiet, fun rs => runs_into.mpr ⟨_, runs_inView.mpr ⟨t, on rs, rfl, rfl⟩, rfl⟩⟩
  | stops =>
    intro u flushed
    obtain ⟨inside, here⟩ := flush_inside flushed
    obtain ⟨cut, stops⟩ := h _ inside
    have outer : u.table = s.table := by rw [here]; rfl
    have back : u.withTable t.table = u.withScope t.machine.scope := by rw [here]; rfl
    refine ⟨runs_into.mpr ⟨_, runs_inView.mpr ⟨_, cut, rfl, here.symm⟩, rfl⟩, fun r rs => ?_⟩
    refine result_into_congr (result_inView_congr ?_ outer.symm)
    rw [stops r rs, ← back]
    rfl

theorem Tells.enclosed {scope : Scope} (h : Tells options (s.withScope scope) whole t again flow) :
    Tells options s (fun rs => enclosed scope (whole rs)) (t.withScope s.machine.scope)
      (fun rs => Pass.enclosed t.machine.scope (again rs)) flow := by
  cases flow with
  | goesOn =>
    obtain ⟨quiet, on⟩ := h
    exact ⟨quiet, fun rs => runs_into.mpr ⟨_, runs_inScope.mpr ⟨t, on rs, rfl, rfl⟩, rfl⟩⟩
  | stops =>
    intro u flushed
    obtain ⟨inside, here⟩ := flush_inside flushed
    obtain ⟨cut, stops⟩ := h _ inside
    have outer : u.machine.scope = s.machine.scope := congrArg (·.machine.scope) here
    refine ⟨runs_into.mpr ⟨_, runs_inScope.mpr ⟨_, cut, rfl, here.symm⟩, rfl⟩, fun r rs => ?_⟩
    refine result_into_congr (result_inScope_congr ?_ outer.symm)
    rw [stops r rs]
    rfl

/-- Where a part went on, what comes next tells of the rest of the walk. -/
theorem Tells.next {rest : Replies → Pass σ (Replies × Flow)} (h : Tells options s whole s' again .goesOn)
    (h' : Tells options s' rest t again' flow) :
    Tells options s (fun rs => goingOn (whole rs) id rest) t again' flow :=
  h'.of_result_eq fun rs => (h.2 rs).result_goingOn

/-- Where a part stopped, the rest of the walk is still to come. -/
theorem Tells.later (h : Tells options s whole t again .stops) (rest : Replies → Pass σ (Replies × Flow)) :
    Tells options s (fun rs => goingOn (whole rs) id rest) t (fun rs => goingOn (again rs) id rest) .stops := by
  intro u flushed
  obtain ⟨cut, stops⟩ := h u flushed
  exact ⟨runs_goingOn.mpr (.inl ⟨[], cut, rfl, rfl⟩), fun r rs => result_goingOn_congr (stops r rs)⟩

end Tells

section Rules

variable {α β γ : Type} {part : Pass σ (α × Flow)}
  {whole : Replies → Pass σ (Replies × Flow)} {again : α → Replies → Pass σ (Replies × Flow)} {left : α → Flow → Prop}

/-- A part that goes on with nothing left to do. -/
theorem continues_pure {a : α} (quiet : s.response = none) (fine : left a .goesOn) :
    Continues options s (return (a, .goesOn)) (fun rs => return (rs, .goesOn)) again left := by
  intro a' flow t ran
  obtain ⟨same, rfl⟩ := runs_pure.mp ran
  obtain ⟨rfl, rfl⟩ := Prod.mk.inj same
  exact ⟨fine, quiet, fun rs => rfl⟩

/-- A part that begins as the walk does. -/
theorem continues_bind {head : Pass σ γ} {k : γ → Pass σ (α × Flow)} {k' : γ → Replies → Pass σ (Replies × Flow)}
    (h : ∀ c s', Runs head s c s' → Continues options s' (k c) (k' c) again left) :
    Continues options s (head >>= k) (fun rs => head >>= fun c => k' c rs) again left := by
  intro a flow t ran
  obtain ⟨c, s', first, last⟩ := runs_bind.mp ran
  obtain ⟨fine, tells⟩ := h c s' first a flow t last
  exact ⟨fine, tells.of_result_eq fun rs => first.result_bind⟩

/-- What comes first is done once more when the part is gone on with, but to no effect. -/
theorem continues_redo {head : Pass σ γ} {k : γ → Pass σ (α × Flow)} {k' : γ → Replies → Pass σ (Replies × Flow)}
    {k'' : γ → α → Replies → Pass σ (Replies × Flow)}
    (idle : ∀ c s', Runs head s c s' → ∀ u : PassState σ, u.Blank → Runs head u c u)
    (h : ∀ c s', Runs head s c s' → Continues options s' (k c) (k' c) (k'' c) left) :
    Continues options s (head >>= k) (fun rs => head >>= fun c => k' c rs)
      (fun a rs => head >>= fun c => k'' c a rs) left := by
  intro a flow t ran
  obtain ⟨c, s', first, last⟩ := runs_bind.mp ran
  obtain ⟨fine, tells⟩ := h c s' first a flow t last
  refine ⟨fine, (tells.of_result_eq fun rs => first.result_bind).of_again_eq fun _ u rs blank => ?_⟩
  exact (Runs.result_bind (f := fun c => k'' c a rs) (idle c s' first u blank)).symm

theorem Continues.into {f : α → Flow → β} {again' : β → Replies → Pass σ (Replies × Flow)} {left' : β → Flow → Prop}
    (h : Continues options s part whole again left) (fine : ∀ a flow, left a flow → left' (f a flow) flow)
    (same : ∀ a, left a .stops → again' (f a .stops) = again a) :
    Continues options s (into f part) whole again' left' := by
  intro b flow t ran
  obtain ⟨a, ran', rfl⟩ := runs_into.mp ran
  obtain ⟨kept, tells⟩ := h a flow t ran'
  refine ⟨fine a flow kept, tells.of_again_eq ?_⟩
  rintro rfl u rs -
  rw [same a kept]

theorem Continues.inView {given : Option Pointers}
    (h : Continues options (s.withTable (given.getD s.table)) part whole again left) :
    Continues options s (inView given part) (fun rs => within given (whole rs))
      (fun a rs => within (some a.2) (again a.1 rs)) (fun a flow => left a.1 flow) := by
  rintro ⟨a, table⟩ flow t ran
  obtain ⟨t', inside, rfl, rfl⟩ := runs_inView.mp ran
  obtain ⟨kept, tells⟩ := h a flow t' inside
  exact ⟨kept, tells.within⟩

theorem Continues.inScope {scope : Scope} (h : Continues options (s.withScope scope) part whole again left) :
    Continues options s (inScope scope part) (fun rs => enclosed scope (whole rs))
      (fun a rs => enclosed a.2 (again a.1 rs)) (fun a flow => left a.1 flow) := by
  rintro ⟨a, inner⟩ flow t ran
  obtain ⟨t', inside, rfl, rfl⟩ := runs_inScope.mp ran
  obtain ⟨kept, tells⟩ := h a flow t' inside
  exact ⟨kept, tells.enclosed⟩

/-- One part after the other. -/
theorem Continues.goingOn {f : α → β} {rest : α → Pass σ (β × Flow)} {rest' : Replies → Pass σ (Replies × Flow)}
    {again' : β → Replies → Pass σ (Replies × Flow)} {left' : β → Flow → Prop}
    (first : Continues options s part whole again left)
    (last : ∀ a t, Runs part s (a, .goesOn) t → left a .goesOn → t.response = none →
      Continues options t (rest a) rest' again' left')
    (stopped : ∀ a, left a .stops → left' (f a) .stops ∧ again' (f a) = fun rs => goingOn (again a rs) id rest') :
    Continues options s (goingOn part f rest) (fun rs => goingOn (whole rs) id rest') again' left' := by
  intro b flow t ran
  rcases runs_goingOn.mp ran with ⟨a, stop, rfl, rfl⟩ | ⟨a, s', ran, next⟩
  · obtain ⟨kept, tells⟩ := first a .stops t stop
    obtain ⟨fine, same⟩ := stopped a kept
    exact ⟨fine, same ▸ tells.later rest'⟩
  · obtain ⟨kept, tells⟩ := first a .goesOn s' ran
    obtain ⟨kept', tells'⟩ := last a s' ran kept tells.1 b flow t next
    exact ⟨kept', tells.next tells'⟩

/-- A part that a stop leaves open. -/
theorem Continues.closing {close : Pass σ Unit} (h : Continues options s part whole again left) (aside : Aside close) :
    Continues options s (closing part close) (fun rs => closing (whole rs) close)
      (fun a rs => closing (again a rs) close) left := by
  intro a flow t ran
  rcases runs_goingOn.mp ran with ⟨a, stop, rfl, rfl⟩ | ⟨a, s', ran, next⟩
  · obtain ⟨kept, tells⟩ := h a .stops t stop
    exact ⟨kept, tells.later fun rs => do close; return (rs, .goesOn)⟩
  · obtain ⟨kept, quiet, on⟩ := h a .goesOn s' ran
    obtain ⟨⟨⟩, t', closed, last⟩ := runs_bind.mp next
    obtain ⟨same, rfl⟩ := runs_pure.mp last
    obtain ⟨rfl, rfl⟩ := Prod.mk.inj same
    refine ⟨kept, (aside.response_eq closed).trans quiet, fun rs => ?_⟩
    exact runs_goingOn.mpr (.inr ⟨rs, s', on rs, runs_bind.mpr ⟨(), t', closed, rfl⟩⟩)

end Rules

/-! ## The rounds of a loop -/

/-- What rounds of a loop over the given items leave: a body that meets `left`, and where they stopped the number
and the variables of a round. -/
def RoundsLeft (left : List Node → Flow → Prop) (items : List Value) (r : Rounds) (flow : Flow) : Prop :=
  left r.body flow ∧ (flow = .stops → ∃ n table, r.round = some n ∧ r.table = some table ∧ n < items.length)

/-- Rounds continue the rounds of a walk if each round does. -/
theorem continues_rounds {item : Binding} {index : Option Binding} {again : Pass σ (List Node × Flow)}
    {body : Replies → Pass σ (Replies × Flow)} {resume : List Node → Replies → Pass σ (Replies × Flow)}
    {left : List Node → Flow → Prop}
    (each : ∀ s : PassState σ, s.response = none → Continues options s again body resume left)
    {items vs : List Value} {n : Nat} {nodes : List Node} {round : Option Nat} (rest : vs = items.drop n)
    (quiet : s.response = none) (fine : left nodes .goesOn) :
    Continues options s (rounds item index again vs n nodes round) (straightRounds item index body vs n)
      (fun r => resumeRounds item index r.table (resume r.body) body items (r.round.getD 0))
      (RoundsLeft left items) := by
  induction vs generalizing n nodes round s with
  | nil => exact continues_pure quiet ⟨fine, nofun⟩
  | cons v vs ih =>
    have later : vs = items.drop (n + 1) := by rw [← List.tail_drop, ← rest, List.tail_cons]
    have there : n < items.length := by
      have size := congrArg List.length rest
      rw [List.length_cons, List.length_drop] at size
      omega
    have here : Continues options s (inView none (do declareItem item index v n; again))
        (fun rs => within none (do declareItem item index v n; body rs))
        (fun a rs => within (some a.2) (resume a.1 rs)) (fun a flow => left a.1 flow) := by
      refine Continues.inView (continues_bind fun _ s' declared => each s' ?_)
      exact ((aside_declareItem item index v n).response_eq declared).trans quiet
    refine here.goingOn ?_ ?_
    · rintro ⟨nodes, table⟩ t - kept quiet
      exact ih later quiet kept
    · rintro ⟨nodes, table⟩ kept
      refine ⟨⟨kept, fun _ => ⟨n, table, rfl, rfl, there⟩⟩, ?_⟩
      funext rs
      unfold resumeRounds
      rw [later]
      rfl

end Pass
end PromptScript
