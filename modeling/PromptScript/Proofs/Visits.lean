import PromptScript.Proofs.Needs

/-! # Two passes side by side

Two passes over the same document, in the same world, on scopes that are twins. A part that needs and gives some names
does the same in both (`View.Even`). A part that visits nodes leaves nodes that differ in marks alone, and where one
pass stops so does the other, with marks that are twins (`View.Ended`). -/
namespace PromptScript

variable {σ α β γ δ : Type}

namespace Pass

variable (eval : Evaluator σ) (options : Options)

mutual

/-- Where marks do not count a node may as well have none. -/
theorem walk_cleared (around : Surroundings) : ∀ n : Node,
    walk eval options around true n.cleared = walk eval options around true n
  | .text .. | .comment .. | .config .. | .interpolation .. => rfl
  | .group _ body _ => by simp only [walk, Node.cleared, walkAll_clearedAll around body, if_true]
  | .choice _ test body none _ => by
    simp only [walk, Node.cleared, untouched, walkAll_clearedAll around body, Node.clearedAll_clearedAll, if_true]
  | .choice _ test body (some other) _ => by
    simp only [walk, Node.cleared, untouched, walkAll_clearedAll around body, walkAll_clearedAll around other,
      Node.clearedAll_clearedAll, if_true]
  | .loop _ items item index body none _ => by
    simp only [walk, Node.cleared, untouched, walkAll_clearedAll around body, Node.clearedAll_clearedAll, if_true]
  | .loop _ items item index body (some other) _ => by
    simp only [walk, Node.cleared, untouched, walkAll_clearedAll around body, walkAll_clearedAll around other,
      Node.clearedAll_clearedAll, if_true]
  | .element _ tag attributes body _ => by
    simp only [walk, Node.cleared, untouched, walkAll_clearedAll _ body, Node.clearedAll_clearedAll, if_true,
      closedScope, newScope_clearedAll]

theorem walkAll_clearedAll (around : Surroundings) : ∀ nodes : List Node,
    walkAll eval options around true (Node.clearedAll nodes) = walkAll eval options around true nodes
  | [] => rfl
  | n :: r => by
    simp only [walkAll, Node.clearedAll, untouched, walk_cleared around n, walkAll_clearedAll around r,
      Node.clearedAll_clearedAll, if_true, Bool.not_true, Bool.false_and, Bool.false_eq_true, if_false]

end

theorem walkAll_congr (around : Surroundings) {nodes nodes' : List Node}
    (h : Node.clearedAll nodes = Node.clearedAll nodes') :
    walkAll eval options around true nodes = walkAll eval options around true nodes' := by
  rw [← walkAll_clearedAll, h, walkAll_clearedAll]

mutual

/-- Where a node has no marks it is no matter whether they count. -/
theorem walk_of_bare (around : Surroundings) : ∀ n : Node, n.cleared = n →
    walk eval options around false n = walk eval options around true n
  | .text _ _ p, bare => by
    obtain rfl : none = p := (Node.text.inj bare).2.2
    rfl
  | .comment _ _ p, bare => by
    obtain rfl : none = p := (Node.comment.inj bare).2.2
    rfl
  | .config _ _ p, bare => by
    obtain rfl : none = p := (Node.config.inj bare).2.2
    rfl
  | .interpolation _ _ p, bare => by
    obtain rfl : none = p := (Node.interpolation.inj bare).2.2
    rfl
  | .group _ body p, bare => by
    obtain ⟨-, inside, rfl⟩ := Node.group.inj bare
    unfold walk
    rw [walkAll_of_bare around body inside]
    rfl
  | .choice _ test body none p, bare => by
    obtain ⟨-, -, inside, -, rfl⟩ := Node.choice.inj bare
    unfold walk untouched
    rw [walkAll_of_bare around body inside, inside]
    rfl
  | .choice _ test body (some other) p, bare => by
    obtain ⟨-, -, inside, inOther, rfl⟩ := Node.choice.inj bare
    have inOther := Option.some.inj inOther
    unfold walk untouched
    rw [walkAll_of_bare around body inside, walkAll_of_bare around other inOther, inside, inOther]
    rfl
  | .loop _ items item index body none p, bare => by
    obtain ⟨-, -, -, -, inside, -, rfl⟩ := Node.loop.inj bare
    unfold walk untouched
    rw [walkAll_of_bare around body inside, inside]
    rfl
  | .loop _ items item index body (some other) p, bare => by
    obtain ⟨-, -, -, -, inside, inOther, rfl⟩ := Node.loop.inj bare
    have inOther := Option.some.inj inOther
    unfold walk untouched
    rw [walkAll_of_bare around body inside, walkAll_of_bare around other inOther, inside, inOther]
    rfl
  | .element _ tag attributes body p, bare => by
    obtain ⟨-, -, -, inside, rfl⟩ := Node.element.inj bare
    unfold walk untouched
    simp only [walkAll_of_bare _ body inside, inside, ite_self]
    rfl

theorem walkAll_of_bare (around : Surroundings) : ∀ nodes : List Node, Node.clearedAll nodes = nodes →
    walkAll eval options around false nodes = walkAll eval options around true nodes
  | [], _ => rfl
  | n :: r, bare => by
    obtain ⟨here, later⟩ := List.cons.inj bare
    have open_ : (!false && n.isDone) = false := Node.Fresh.not_done (.inr here)
    unfold walkAll untouched
    rw [open_, walk_of_bare around n here, walkAll_of_bare around r later, later]
    rfl

end

end Pass

/-- A fault ends both passes in the same world. -/
def PassState.SameWorld (s t : PassState σ) : Prop := s.machine.toWorld = t.machine.toWorld

/-- The names that take the response to a step. -/
def Pass.StepHead.names (head : StepHead) : List String := head.rawName.toList ++ head.resultName.toList

namespace View

variable {below : View} {known known' goal goal' : Known} {u v : Uses}

/-- Two passes that no response waits for, and that show the same. -/
def Quiet (below : View) (known : Known) (s t : PassState σ) : Prop :=
  s.response = none ∧ s.Beside (below.Shows known) t

theorem lasting_quiet (below : View) : Lasting (PassState.SameWorld (σ := σ)) below.Quiet where
  failed here := below.lasting_shows.failed here.2.machine
  fewer fewer here := ⟨here.1, here.2.imp fun _ _ => below.lasting_shows.fewer fewer⟩

/-! ## Parts that give values -/

/-- A part that needs and gives some names does the same in two quiet passes. -/
abbrev Even (below : View) (u : Uses) (part : Pass σ α) : Prop :=
  Coupled PassState.SameWorld below.Quiet u part part

theorem even_of_aside {part : Pass σ α} (aside : Pass.Aside part)
    (h : Pass.Coupled (fun m n => m.toWorld = n.toWorld) below.Shows u part part) : below.Even u part := by
  intro known all s t ⟨quiet, here⟩
  have both := h known all s t here
  generalize ran : part.run.run s = x at both ⊢
  generalize part.run.run t = y at both ⊢
  cases both with
  | error h => exact .error h
  | ok h => exact .ok ⟨h.1, (aside.response_eq ran).trans quiet, h.2⟩

theorem even_of_apart {part : Pass σ α} (blind : Pass.Blind part part) (apart : Pass.Apart part) :
    below.Even .none part :=
  even_of_aside apart.aside (blind.coupled below.lasting_shows)

section Evaluations

variable (host : Host σ)

theorem even_evaluate (e : Expr) : below.Even e.uses (Pass.evaluate (Expr.eval host) e) :=
  even_of_aside (Pass.aside_evaluate _ e) (Pass.coupled_evaluate (fun e => coupled_evalWith (below.agrees host) e) e)

theorem even_interpolate (options : Options) (around : Surroundings) (span : Span) (e : Expr) :
    below.Even e.uses (Pass.interpolate (Expr.eval host) options around span e) :=
  even_of_aside (Pass.aside_interpolate _ options around span e) (Pass.coupled_interpolate below.lasting_shows
    (fun e => coupled_evalWith (below.agrees host) e) options around span e)

theorem even_attributeValues (attributes : List Attribute) :
    below.Even (Attribute.usesOf attributes) (Pass.attributeValues (Expr.eval host) attributes []) :=
  even_of_aside (Pass.aside_attributeValues _ attributes []) (Pass.coupled_attributeValues below.lasting_shows
    (fun e => coupled_evalWith (below.agrees host) e) attributes [])

end Evaluations

/-- What is done with the scopes. -/
theorem even_modifyScope {change : Scope → Scope} {name : String}
    (h : ∀ {known} {m n : Machine σ}, below.Shows known m n → below.Shows (known.and [name])
      { m with scope := change m.scope } { n with scope := change n.scope }) :
    below.Even (.write name) (Pass.modifyScope change : Pass σ Unit) :=
  even_of_aside (Pass.aside_modifyScope change) fun _ _ => .modify fun _ _ here =>
    ⟨rfl, { here with machine := h here.machine }⟩

theorem even_write (name : String) (v : Value) : below.Even (.write name) (Pass.write name v : Pass σ Unit) :=
  even_modifyScope fun shows => shows.set name v

theorem even_declare (name : String) (v : Value) : below.Even (.write name) (Pass.declare name v : Pass σ Unit) :=
  even_modifyScope fun shows => shows.declare name v

theorem even_declareItem (item : Binding) (index : Option Binding) (v : Value) (n : Nat) :
    below.Even ⟨[], Binding.names item index⟩ (Pass.declareItem item index v n : Pass σ Unit) := by
  cases index with
  | none => exact below.lasting_quiet.bind (even_declare _ _) fun _ => below.lasting_quiet.pure ()
  | some index => exact below.lasting_quiet.bind (even_declare _ _) fun _ => even_declare _ _

theorem even_closeStep (span : Span) (head : Pass.StepHead) (response : List Content) :
    below.Even ⟨[], head.names⟩ (Pass.closeStep span head response : Pass σ Unit) := by
  have named (name : String) : below.Even ⟨[], [name]⟩ (do
      Pass.write name (← Pass.responseValue span (Fields.has "schema" head.config) response) : Pass σ Unit) :=
    below.lasting_quiet.before (even_of_apart (Pass.blind_responseValue _ _ _)
      (Pass.still_responseValue _ _ _).apart) fun v => even_write name v
  obtain ⟨_ | name, _ | rawName, config⟩ := head
  · exact below.lasting_quiet.bind (below.lasting_quiet.pure ()) fun _ => below.lasting_quiet.pure ()
  · exact below.lasting_quiet.bind (even_write _ _) fun _ => below.lasting_quiet.pure ()
  · exact below.lasting_quiet.bind (below.lasting_quiet.pure ()) fun _ => named name
  · exact below.lasting_quiet.bind (even_write _ _) fun _ => named name

/-! ## Parts that visit nodes -/

/-- How two parts that visit nodes end: both go on with nodes that are the same but for marks, and know the same, or
both stop and leave marks of twins. -/
inductive Ended (below : View) (goal : Known) (same : α → β → Prop) (left : Level → Stash → Stash → α → β → Prop) :
    α × Flow → β × Flow → PassState σ → PassState σ → Prop
  | goesOn {a : α} {b : β} {s t : PassState σ} (alike : same a b) (here : below.Quiet goal s t) :
      Ended below goal same left (a, .goesOn) (b, .goesOn) s t
  | stops {a : α} {b : β} {s t : PassState σ} (level : Level) (here : s.Beside (Machine.Twin (level :: below)) t)
      (marks : left level s.machine.scope.stash t.machine.scope.stash a b) :
      Ended below goal same left (a, .stops) (b, .stops) s t

/-- Two parts that no response waits for. -/
abbrev Visits (below : View) (known goal : Known) (same : α → β → Prop)
    (left : Level → Stash → Stash → α → β → Prop) (part : Pass σ (α × Flow)) (part' : Pass σ (β × Flow)) : Prop :=
  Abreast PassState.SameWorld (below.Quiet known) part part' (below.Ended goal same left)

/-- Two passes that are gone on with: the response waits, and the cells are those that the marks tell of. -/
structure Reopened (r : List Content) (stash stash' : Stash) (levels : View) (s t : PassState σ) : Prop where
  response : s.response = some r
  cells : s.machine.scope.stash = stash
  cells' : t.machine.scope.stash = stash'
  beside : s.Beside (Machine.Twin levels) t

/-- What is left of a part with a table of its own. -/
def Inside (left : Level → Level → Stash → Stash → α → β → Prop) (below : View) (known : Known) (level : Level)
    (stash stash' : Stash) (a : α × Pointers) (b : β × Pointers) : Prop :=
  level.known = known ∧ ∃ inner, Scope.Twin (inner :: level :: below) ⟨stash, a.2⟩ ⟨stash', b.2⟩ ∧
    left level inner stash stash' a.1 b.1

/-- What is left of a part with a scope of its own. -/
def Enclosed (left : Level → Stash → Stash → α → β → Prop) (known : Known) (level : Level) (_ _ : Stash)
    (a : α × Scope) (b : β × Scope) : Prop :=
  level.known = known ∧ ∃ inner, Scope.Twin [inner] a.2 b.2 ∧ left inner a.2.stash b.2.stash a.1 b.1

section Rules

variable {same : α → β → Prop} {left : Level → Stash → Stash → α → β → Prop} {same' : γ → δ → Prop}
  {left' : Level → Stash → Stash → γ → δ → Prop} {before : PassState σ → PassState σ → Prop}
  {part : Pass σ (α × Flow)} {part' : Pass σ (β × Flow)}

theorem visits_pure {a : α} {b : β} (h : same a b) (kept : ∀ x, goal x → known x) :
    Visits below known goal same left (pure (a, .goesOn) : Pass σ (α × Flow)) (pure (b, .goesOn)) :=
  .pure fun _ _ here => .goesOn h (below.lasting_quiet.fewer kept here)

theorem Even.visits_of_yields {part : Pass σ α} {good : α → Prop} {f : α → Pass σ (γ × Flow)}
    {g : α → Pass σ (δ × Flow)} (h : below.Even u part) (fine : Yields good part) (all : ∀ x ∈ u.needs, known x)
    (rest : ∀ a, good a → Visits below (known.and u.gives) goal same' left' (f a) (g a)) :
    Visits below known goal same' left' (part >>= f) (part >>= g) :=
  ((h known all).of_yields fine).bind fun a b => .of_fact fun good => .of_fact fun equal => by
    subst equal
    exact rest a good

theorem Even.visits {part : Pass σ α} {f : α → Pass σ (γ × Flow)} {g : α → Pass σ (δ × Flow)} (h : below.Even u part)
    (all : ∀ x ∈ u.needs, known x)
    (rest : ∀ a, Visits below (known.and u.gives) goal same' left' (f a) (g a)) :
    Visits below known goal same' left' (part >>= f) (part >>= g) :=
  h.visits_of_yields (fun _ _ _ _ => trivial) all fun a _ => rest a

/-- A part that needs and gives nothing. -/
theorem Even.leads_of_yields {part : Pass σ α} {good : α → Prop} {f : α → Pass σ (γ × Flow)}
    {g : α → Pass σ (δ × Flow)} (h : below.Even .none part) (fine : Yields good part)
    (rest : ∀ a, good a → Visits below known goal same' left' (f a) (g a)) :
    Visits below known goal same' left' (part >>= f) (part >>= g) :=
  h.visits_of_yields fine (fun _ => nofun) fun a good =>
    (rest a good).imp (fun _ _ => below.lasting_quiet.fewer fun _ => .inl) (fun _ _ _ _ => id) fun _ _ => id

theorem Even.leads {part : Pass σ α} {f : α → Pass σ (γ × Flow)} {g : α → Pass σ (δ × Flow)}
    (h : below.Even .none part) (rest : ∀ a, Visits below known goal same' left' (f a) (g a)) :
    Visits below known goal same' left' (part >>= f) (part >>= g) :=
  h.leads_of_yields (fun _ _ _ _ => trivial) fun a _ => rest a

theorem ended_into {goal' : Known} {f : α → Flow → γ} {g : β → Flow → δ}
    (h : Abreast PassState.SameWorld before part part' (below.Ended goal same left)) (kept : ∀ x, goal' x → goal x)
    (goesOn : ∀ a b, same a b → same' (f a .goesOn) (g b .goesOn))
    (stops : ∀ level stash stash' a b, left level stash stash' a b → left' level stash stash' (f a .stops) (g b .stops)) :
    Abreast PassState.SameWorld before (Pass.into f part) (Pass.into g part') (below.Ended goal' same' left') := by
  refine h.bind fun x y => .pure fun s t ended => ?_
  cases ended with
  | goesOn alike here => exact .goesOn (goesOn _ _ alike) (below.lasting_quiet.fewer kept here)
  | stops _ here marks => exact .stops _ here (stops _ _ _ _ _ marks)

theorem ended_goingOn {between : Known} {f : α → γ} {g : β → δ} {rest : α → Pass σ (γ × Flow)}
    {rest' : β → Pass σ (δ × Flow)}
    (h : Abreast PassState.SameWorld before part part' (below.Ended between same left))
    (stops : ∀ level stash stash' a b, left level stash stash' a b → left' level stash stash' (f a) (g b))
    (goesOn : ∀ a b, same a b → Visits below between goal same' left' (rest a) (rest' b)) :
    Abreast PassState.SameWorld before (Pass.goingOn part f rest) (Pass.goingOn part' g rest')
      (below.Ended goal same' left') := by
  refine h.bind fun x y s t ended => ?_
  cases ended with
  | goesOn alike here => exact goesOn _ _ alike s t here
  | stops _ here marks => exact .ok (.stops _ here (stops _ _ _ _ _ marks))

theorem ended_closing {close : Pass σ Unit}
    (h : Abreast PassState.SameWorld before part part' (below.Ended goal same left)) (closes : below.Even .none close) :
    Abreast PassState.SameWorld before (Pass.closing part close) (Pass.closing part' close)
      (below.Ended goal same left) :=
  ended_goingOn h (fun _ _ _ _ _ => id) fun _ _ alike => Even.leads closes fun _ => visits_pure alike fun _ => id

/-! ### Tables -/

/-- After a part with a table of its own the frames are those from before. -/
theorem ended_inView {level : Level} {s t : PassState σ} {left : Level → Level → Stash → Stash → α → β → Prop}
    (outer : Machine.Twin (level :: below) s.machine t.machine) {table table' : Option Pointers}
    (h : Meet PassState.SameWorld (Ended (level :: below) goal same (left level))
      (part.result (s.withTable (table.getD s.table))) (part'.result (t.withTable (table'.getD t.table)))) :
    Meet PassState.SameWorld (below.Ended level.known (fun a b => same a.1 b.1) (Inside left below level.known))
      ((Pass.inView table part).result s) ((Pass.inView table' part').result t) := by
  rw [Pass.result_inView, Pass.result_inView]
  generalize part.result (s.withTable (table.getD s.table)) = x at h ⊢
  generalize part'.result (t.withTable (table'.getD t.table)) = y at h ⊢
  cases h with
  | error h => exact .error h
  | ok ended =>
    cases ended with
    | goesOn alike here =>
      obtain ⟨quiet, here⟩ := here
      obtain ⟨_, _, twin⟩ := here.machine
      refine .ok (.goesOn alike ⟨quiet, { here with machine := ⟨level.left, level.right, ⟨⟨?_, ?_, ?_⟩, twin.world⟩⟩ }⟩)
      · exact twin.left.tail outer.left.table
      · exact twin.right.tail outer.right.table
      · exact twin.frames.tail
    | stops inner here stopped =>
      have twin := here.machine
      refine .ok (.stops level { here with machine := ⟨⟨?_, ?_, ?_⟩, twin.world⟩ }
        ⟨rfl, inner, twin.toTwin, stopped⟩)
      · exact twin.left.tail outer.left.table
      · exact twin.right.tail outer.right.table
      · exact twin.frames.tail

theorem visits_inView (known : Known) (left : Level → Level → Stash → Stash → α → β → Prop)
    (h : ∀ level : Level, level.known = known → Visits (level :: below) known goal same (left level) part part') :
    Visits below known known (fun a b => same a.1 b.1) (Inside left below known) (Pass.inView none part)
      (Pass.inView none part') := by
  rintro s t ⟨quiet, here⟩
  obtain ⟨above, above', twin⟩ := here.machine
  have inner : View.Quiet (⟨above, above', known⟩ :: below) known (s.withTable s.table) (t.withTable t.table) :=
    ⟨quiet, { here with machine := ⟨[], [], ⟨twin.left.push, twin.right.push, twin.frames.push⟩, twin.world⟩ }⟩
  exact ended_inView twin (h ⟨above, above', known⟩ rfl _ _ inner)

theorem reopened_inView {level inner : Level} {r : List Content} {stash stash' : Stash} {table table' : Pointers}
    (left : Level → Level → Stash → Stash → α → β → Prop)
    (twin : Scope.Twin (inner :: level :: below) ⟨stash, table⟩ ⟨stash', table'⟩)
    (h : Abreast PassState.SameWorld (Reopened r stash stash' (inner :: level :: below)) part part'
      (Ended (level :: below) goal same (left level))) :
    Abreast PassState.SameWorld (Reopened r stash stash' (level :: below)) (Pass.inView (some table) part)
      (Pass.inView (some table') part')
      (below.Ended level.known (fun a b => same a.1 b.1) (Inside left below level.known)) := by
  intro s t here
  have outer := here.beside.machine
  refine ended_inView outer (h _ _ ⟨here.response, here.cells, here.cells', ?_⟩)
  refine { here.beside with machine := ⟨?_, outer.world⟩ }
  obtain ⟨-, rfl, rfl, -⟩ := here
  exact twin

/-! ### Scopes -/

/-- After a part with a scope of its own the scopes are those from before. -/
theorem ended_inScope {level : Level} {scope scope' : Scope} {s t : PassState σ}
    (outer : Machine.Twin (level :: below) s.machine t.machine)
    (h : Meet PassState.SameWorld (Ended [] goal same left) (part.result (s.withScope scope))
      (part'.result (t.withScope scope'))) :
    Meet PassState.SameWorld (below.Ended level.known (fun a b => same a.1 b.1) (Enclosed left level.known))
      ((Pass.inScope scope part).result s) ((Pass.inScope scope' part').result t) := by
  rw [Pass.result_inScope, Pass.result_inScope]
  generalize part.result (s.withScope scope) = x at h ⊢
  generalize part'.result (t.withScope scope') = y at h ⊢
  cases h with
  | error h => exact .error h
  | ok ended =>
    cases ended with
    | goesOn alike here =>
      obtain ⟨quiet, here⟩ := here
      obtain ⟨_, _, twin⟩ := here.machine
      exact .ok (.goesOn alike
        ⟨quiet, { here with machine := ⟨level.left, level.right, { outer.toTwin with world := twin.world }⟩ }⟩)
    | stops inner here marks =>
      have twin := here.machine
      exact .ok (.stops level { here with machine := { outer.toTwin with world := twin.world } }
        ⟨rfl, inner, twin.toTwin, marks⟩)

theorem visits_inScope {scope scope' : Scope} {inner : Level} (twin : Scope.Twin [inner] scope scope')
    (h : Visits [] inner.known goal same left part part') :
    Visits below known known (fun a b => same a.1 b.1) (Enclosed left known) (Pass.inScope scope part)
      (Pass.inScope scope' part') := by
  rintro s t ⟨quiet, here⟩
  obtain ⟨above, above', outer⟩ := here.machine
  have opened : View.Quiet [] inner.known (s.withScope scope) (t.withScope scope') :=
    ⟨quiet, { here with machine := ⟨inner.left, inner.right, { twin with world := outer.world }⟩ }⟩
  have outer : Machine.Twin (⟨above, above', known⟩ :: below) s.machine t.machine := outer
  exact ended_inScope outer (h _ _ opened)

theorem reopened_inScope {level inner : Level} {r : List Content} {stash stash' : Stash} {scope scope' : Scope}
    (twin : Scope.Twin [inner] scope scope')
    (h : Abreast PassState.SameWorld (Reopened r scope.stash scope'.stash [inner]) part part' (Ended [] goal same left)) :
    Abreast PassState.SameWorld (Reopened r stash stash' (level :: below)) (Pass.inScope scope part)
      (Pass.inScope scope' part')
      (below.Ended level.known (fun a b => same a.1 b.1) (Enclosed left level.known)) := by
  intro s t here
  have outer := here.beside.machine
  refine ended_inScope outer (h _ _ ⟨here.response, rfl, rfl, ?_⟩)
  exact { here.beside with machine := { twin with world := outer.world } }

end Rules

/-! ### Responses -/

/-- No response is there to be taken. -/
theorem quiet_takeResponse : Abreast PassState.SameWorld (below.Quiet known) (Pass.takeResponse : Pass σ _)
    Pass.takeResponse fun a b s t => a = none ∧ b = none ∧ below.Quiet known s t := by
  rintro s t ⟨quiet, here⟩
  exact .ok ⟨quiet, here.response ▸ quiet, rfl, { here with response := rfl }⟩

/-- The response is taken, and none waits any more. -/
theorem reopened_takeResponse {r : List Content} {stash stash' : Stash} {level : Level} :
    Abreast PassState.SameWorld (Reopened r stash stash' (level :: below)) (Pass.takeResponse : Pass σ _)
      Pass.takeResponse fun a b s t => a = some r ∧ b = some r ∧ below.Quiet level.known s t := by
  intro s t here
  have beside := here.beside
  exact .ok ⟨here.response, beside.response ▸ here.response, rfl,
    { beside with response := rfl, machine := ⟨level.left, level.right, beside.machine⟩ }⟩

/-- Parts that look at neither machine nor response come before what is gone on with. -/
theorem reopened_bind_of_yields {r : List Content} {stash stash' : Stash} {levels : View} {part : Pass σ α}
    {good : α → Prop} {f : α → Pass σ γ} {g : α → Pass σ δ} {after : γ → δ → PassState σ → PassState σ → Prop}
    (blind : Pass.Blind part part) (apart : Pass.Apart part) (fine : Yields good part)
    (rest : ∀ a, good a → Abreast PassState.SameWorld (Reopened r stash stash' levels) (f a) (g a) after) :
    Abreast PassState.SameWorld (Reopened r stash stash' levels) (part >>= f) (part >>= g) after := by
  have first : Abreast PassState.SameWorld (Reopened r stash stash' levels) part part
      fun a b s t => a = b ∧ Reopened r stash stash' levels s t := by
    intro s t here
    have related : ∀ m n : Machine σ, Machine.Twin levels m n ∧ m.scope.stash = stash ∧ n.scope.stash = stash' →
        m.toWorld = n.toWorld := fun m n h => h.1.world
    have both := blind related s t { here.beside with machine := ⟨here.beside.machine, here.cells, here.cells'⟩ }
    generalize ran : part.run.run s = x at both ⊢
    generalize part.run.run t = y at both ⊢
    cases both with
    | error h => exact .error h
    | ok h =>
      obtain ⟨same, there⟩ := h
      obtain ⟨twin, cells, cells'⟩ := there.machine
      exact .ok ⟨same, (apart.aside.response_eq ran).trans here.response, cells, cells', { there with machine := twin }⟩
  refine (first.of_yields fine).bind fun a b => .of_fact fun good => .of_fact fun same => ?_
  subst same
  exact rest a good

theorem reopened_bind {r : List Content} {stash stash' : Stash} {levels : View} {part : Pass σ α}
    {f : α → Pass σ γ} {g : α → Pass σ δ} {after : γ → δ → PassState σ → PassState σ → Prop}
    (blind : Pass.Blind part part) (apart : Pass.Apart part)
    (rest : ∀ a, Abreast PassState.SameWorld (Reopened r stash stash' levels) (f a) (g a) after) :
    Abreast PassState.SameWorld (Reopened r stash stash' levels) (part >>= f) (part >>= g) after :=
  reopened_bind_of_yields blind apart (fun _ _ _ _ => trivial) fun a _ => rest a

end View
end PromptScript
