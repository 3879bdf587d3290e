import PromptScript.Proofs.Visits

/-! # What is not needed is not seen

Two passes over the same document, on scopes that agree on the names it needs, do the same. Where they stop they leave
marks of twins, and when they are gone on with they do the same again. -/
namespace PromptScript

variable {σ α : Type}

/-! ## What passes leave -/

namespace Node

/-- Two nodes that are one but for marks. -/
def SameAs (n : Node) (a b : Node) : Prop := a.cleared = n.cleared ∧ b.cleared = n.cleared

/-- Two lists of nodes that are one but for marks. -/
def SameAsAll (nodes a b : List Node) : Prop := clearedAll a = clearedAll nodes ∧ clearedAll b = clearedAll nodes

section SameAs

variable {span : Span} {body a b : List Node} {other c d : Option (List Node)} {p q q' : Option Progress}

theorem sameAsAll_untouched (nodes : List Node) :
    SameAsAll nodes (Pass.untouched true nodes) (Pass.untouched true nodes) :=
  ⟨clearedAll_clearedAll nodes, clearedAll_clearedAll nodes⟩

theorem SameAsAll.uses_eq (h : SameAsAll body a b) : usesOfAll a = usesOfAll body := by
  rw [← usesOfAll_clearedAll a, h.1, usesOfAll_clearedAll]

theorem SameAs.finished {n a b : Node} (h : SameAs n a b) : SameAs n a.finished b.finished :=
  ⟨(cleared_finished a).trans h.1, (cleared_finished b).trans h.2⟩

theorem SameAs.cons {n c d : Node} (h : SameAs n c d) (later : SameAsAll body a b) :
    SameAsAll (n :: body) (c :: a) (d :: b) :=
  ⟨by rw [clearedAll, clearedAll, h.1, later.1], by rw [clearedAll, clearedAll, h.2, later.2]⟩

theorem SameAsAll.group (h : SameAsAll body a b) : SameAs (.group span body p) (.group span a q) (.group span b q') :=
  ⟨congrArg (Node.group span · none) h.1, congrArg (Node.group span · none) h.2⟩

theorem SameAsAll.choice {test : Expr} (h : SameAsAll body a b) (h' : c.map clearedAll = other.map clearedAll)
    (h'' : d.map clearedAll = other.map clearedAll) :
    SameAs (.choice span test body other p) (.choice span test a c q) (.choice span test b d q') := by
  constructor
  · rw [cleared_choice, cleared_choice, h.1, h']
  · rw [cleared_choice, cleared_choice, h.2, h'']

theorem SameAsAll.loop {e : Expr} {item : Binding} {index : Option Binding} (h : SameAsAll body a b)
    (h' : c.map clearedAll = other.map clearedAll) (h'' : d.map clearedAll = other.map clearedAll) :
    SameAs (.loop span e item index body other p) (.loop span e item index a c q)
      (.loop span e item index b d q') := by
  constructor
  · rw [cleared_loop, cleared_loop, h.1, h']
  · rw [cleared_loop, cleared_loop, h.2, h'']

theorem SameAsAll.element {tag : Tag} {attributes : List Attribute} (h : SameAsAll body a b) :
    SameAs (.element span tag attributes body p) (.element span tag attributes a q)
      (.element span tag attributes b q') :=
  ⟨congrArg (Node.element span tag attributes · none) h.1, congrArg (Node.element span tag attributes · none) h.2⟩

end SameAs

/-- What is left of a node where both passes stop. Within a step no pass stops. -/
structure LeftTwin (around : Surroundings) (n : Node) (goal : Known) (below : View) (level : Level)
    (stash stash' : Stash) (a b : Node) : Prop where
  open_ : around.inStep = false
  same : SameAs n a b
  twin : Twin stash stash' level below goal a b

/-- What is left of nodes. -/
structure LeftTwins (around : Surroundings) (nodes : List Node) (goal : Known) (below : View) (level : Level)
    (stash stash' : Stash) (a b : List Node) : Prop where
  open_ : around.inStep = false
  same : SameAsAll nodes a b
  twins : TwinAll stash stash' level below goal a b

/-- What is left of the rounds of a loop, of which there are `total`. -/
structure LeftRounds (around : Surroundings) (body : List Node) (known : Known) (total : Nat) (below : View)
    (level : Level) (stash stash' : Stash) (a b : Pass.Rounds) : Prop where
  open_ : around.inStep = false
  same : SameAsAll body a.body b.body
  known : level.known = known
  round : ∃ n < total, a.round = some n ∧ b.round = some n
  twins : ∃ inner goal table table', a.table = some table ∧ b.table = some table' ∧
    Scope.Twin (inner :: level :: below) ⟨stash, table⟩ ⟨stash', table'⟩ ∧
    TwinAll stash stash' inner (level :: below) goal a.body b.body

end Node

namespace View

variable {below : View} {known goal : Known}

section Parts

variable {around : Surroundings} {body : List Node} {again : Pass σ (List Node × Flow)}

/-- What visits to nodes do wherever all that they need is known. -/
def Visiting (around : Surroundings) (nodes : List Node) (part : Pass σ (List Node × Flow)) : Prop :=
  ∀ (below : View) (known : Known), (∀ x ∈ (Node.usesOfAll nodes).needs, known x) →
    Visits below known (known.and (Node.usesOfAll nodes).gives) (Node.SameAsAll nodes)
      (Node.LeftTwins around nodes (known.and (Node.usesOfAll nodes).gives) below) part part

theorem visits_rounds (h : Visiting around body again) {item : Binding} {index : Option Binding}
    (needs : ∀ x ∈ ((Node.usesOfAll body).within (Binding.names item index)).needs, known x) :
    ∀ (vs : List Value) (n : Nat) (a b : List Node) (round : Option Nat), Node.SameAsAll body a b →
      Visits below known known (fun a b => Node.SameAsAll body a.body b.body)
        (Node.LeftRounds around body known (n + vs.length) below)
        (Pass.rounds item index again vs n a round) (Pass.rounds item index again vs n b round)
  | [], n, a, b, round, same => visits_pure same fun _ => id
  | v :: r, n, a, b, round, same => by
    have total : n + (v :: r).length = n + 1 + r.length := by rw [List.length_cons]; omega
    rw [total]
    refine ended_goingOn (visits_inView known (fun level => _) fun level _ =>
      Even.visits (even_declareItem item index v n) (fun _ => nofun) fun _ => h (level :: below) _ fun x need => ?_)
      (fun level stash stash' a b marks => ?_) fun a b same => visits_rounds h needs r (n + 1) _ _ _ same
    · -- The body knows the variables of the round.
      by_cases own : x ∈ Binding.names item index
      · exact .inr own
      · exact .inl (needs x (List.mem_filter.mpr ⟨need, decide_eq_true own⟩))
    · obtain ⟨knows, inner, twin, left⟩ := marks
      exact ⟨left.open_, left.same, knows, ⟨n, by omega, rfl, rfl⟩, inner, _, _, _, rfl, rfl, twin, left.twins⟩

/-! ## Tags -/

section Tags

variable {β : Type} {same : α → β → Prop} {left : Level → Stash → Stash → α → β → Prop} {part : Pass σ (α × Flow)}
  {part' : Pass σ (β × Flow)} (options : Options)

theorem visits_content (around : Surroundings) (span : Span) (kind : Option ContentKind) (values : Attributes)
    (h : Visits below known goal same left part part') :
    Visits below known goal same left (Pass.content options around span kind values part)
      (Pass.content options around span kind values part') :=
  Even.leads (even_of_apart (Pass.blind_openContent _ _ _ _) (Pass.still_openContent _ _ _ _).apart) fun _ =>
    ended_closing h (even_of_apart (Pass.blind_closeContent _ _ _ _) (Pass.apart_closeContent _ _ _ _))

theorem visits_message (around : Surroundings) (span : Span) (role : Option Role) (values : Attributes)
    (h : Visits below known goal same left part part') :
    Visits below known goal same left (Pass.message options around span role values part)
      (Pass.message options around span role values part') :=
  Even.leads (even_of_apart (Pass.blind_openMessage _ _ _ _ _) (Pass.apart_openMessage _ _ _ _ _)) fun _ =>
    ended_closing h (even_of_apart (Pass.blind_closeMessage _ _ _ _) (Pass.apart_closeMessage _ _ _ _))

end Tags

theorem yields_need {v : Option α} (defect : Defect) (span : Span) :
    Yields (fun a => v = some a) (Pass.need v defect span : Pass σ α) := by
  cases v with
  | none => exact fun _ _ _ ran => nomatch ran
  | some a => exact yields_pure rfl

theorem yields_staticAttribute (name : String) (tags : List Attribute) :
    Yields (fun text => text = (Attribute.find? name tags).bind (·.value.staticText?))
      (Pass.staticAttribute name tags : Pass σ (Option String)) := by
  unfold Pass.staticAttribute
  cases Attribute.find? name tags with
  | none => exact yields_pure rfl
  | some a => exact (yields_need _ _).bind fun text found => yields_pure found.symm

/-- A step begins only outside of steps, and its variables are the names that it declares. -/
theorem yields_openStep (around : Surroundings) (span : Span) (tags : List Attribute) (values : Attributes) :
    Yields (fun head => around.inStep = false ∧ ∀ x ∈ stepResults tags, x ∈ head.names)
      (Pass.openStep around span tags values : Pass σ Pass.StepHead) := by
  by_cases inside : around.inStep = true
  · exact fun _ _ _ ran => (Pass.not_runs_openStep inside ran).elim
  · unfold Pass.openStep
    rw [if_neg inside]
    refine (yields_staticAttribute "as" tags).bind fun result resultName => ?_
    refine (yields_staticAttribute "raw" tags).bind fun raw rawName => ?_
    refine yields_pure ⟨Bool.eq_false_iff.mpr inside, fun x member => ?_⟩
    obtain ⟨name, listed, text⟩ := List.mem_filterMap.mp member
    rcases List.mem_cons.mp listed with rfl | listed
    · exact List.mem_append_right _ (Option.mem_toList.mpr (resultName.trans text))
    · obtain rfl := List.mem_singleton.mp listed
      exact List.mem_append_left _ (Option.mem_toList.mpr (rawName.trans text))

/-- A new scope is the same in both passes. -/
theorem visits_newScope {γ δ : Type} {same : γ → δ → Prop} {left : Level → Stash → Stash → γ → δ → Prop}
    {f : Scope → Pass σ (γ × Flow)} {g : Scope → Pass σ (δ × Flow)} (values : Attributes) (body : List Node)
    (h : Visits below known goal same left (f (Scope.ofList values)) (g (Scope.ofList values))) :
    Visits below known goal same left (Pass.newScope values body >>= f) (Pass.newScope values body >>= g) := by
  unfold Pass.newScope
  cases Node.closureFaults (Fields.names values) body with
  | cons fault _ => exact .throw fun _ _ here => below.lasting_quiet.failed here
  | nil => exact h

theorem yields_itemsOf (e : Expr) (v : Value) :
    Yields (fun vs => v = .array vs) (Pass.itemsOf e v : Pass σ (List Value)) := by
  cases v with
  | array vs => exact yields_pure rfl
  | _ => exact fun _ _ _ ran => nomatch ran

/-- In both passes a step runs its body, and stops. -/
theorem visits_step (h : Visiting { around with inStep := true } body again) (options : Options) (span : Span)
    (tags : List Attribute) (values : Attributes) (needs : ∀ x ∈ (Node.usesOfAll body).needs, known x) :
    Visits below known goal (fun _ _ => False) (fun level _ _ a b => around.inStep = false ∧
        (∀ x, known.and (Node.usesOfAll body).gives x → level.known x) ∧
        ∃ nodes nodes', a = some nodes ∧ b = some nodes' ∧ Node.SameAsAll body nodes nodes')
      (Pass.step options around span tags values again) (Pass.step options around span tags values again) := by
  unfold Pass.step
  refine Even.leads_of_yields (even_of_apart (Pass.blind_openStep _ _ _ _) (Pass.still_openStep _ _ _ _).apart)
    (yields_openStep around span tags values) fun head fine => ?_
  refine quiet_takeResponse.bind fun a b => .of_fact fun none => .of_fact fun none' => ?_
  subst none none'
  refine (h below known needs).bind fun x y s t ended => ?_
  cases ended with
  | goesOn alike here =>
    have leaves : below.Even .none (Pass.leaveSettings head : Pass σ Unit) :=
      even_of_apart (Pass.blind_leaveSettings head) (Pass.apart_leaveSettings head)
    refine (leaves _ fun _ => nofun).bind (fun _ _ => .pure fun s t here => ?_) s t here
    obtain ⟨left, right, twin⟩ := here.2.2.machine
    refine .stops _ { here.2.2 with machine := twin } ⟨fine.1, fun x given => ?_, _, _, rfl, rfl, alike⟩
    exact .inl given
  | stops _ _ marks => exact absurd marks.open_ nofun

end Parts

/-! ## Nodes with marks -/

section Marks

variable {around : Surroundings} {before : PassState σ → PassState σ → Prop} {between inGoal : Known} {span : Span}
  {body : List Node} {other c d : Option (List Node)} {p : Option Progress}

theorem ended_group {part part' : Pass σ (List Node × Flow)} {p q q' : Option Progress}
    (h : Abreast PassState.SameWorld before part part'
      (below.Ended goal (Node.SameAsAll body) (Node.LeftTwins around body goal below)))
    (bare : q = none) (bare' : q' = none) :
    Abreast PassState.SameWorld before (Pass.into (fun body _ => .group span body q) part)
      (Pass.into (fun body _ => .group span body q') part')
      (below.Ended goal (Node.SameAs (.group span body p)) (Node.LeftTwin around (.group span body p) goal below)) := by
  subst bare bare'
  exact ended_into h (fun _ => id) (fun _ _ same => same.group) fun _ _ _ _ _ left =>
    ⟨left.open_, left.same.group, .group left.twins⟩

variable {part part' : Pass σ ((List Node × Pointers) × Flow)} {test : Expr} {v : Value}

theorem ended_holds (truthy : v.isTruthy = true) (kept : ∀ x, goal x → between x)
    (h : Abreast PassState.SameWorld before part part' (below.Ended between (fun a b => Node.SameAsAll body a.1 b.1)
      (Inside (fun level => Node.LeftTwins around body inGoal (level :: below)) below between)))
    (same : c.map Node.clearedAll = other.map Node.clearedAll) (same' : d.map Node.clearedAll = other.map Node.clearedAll) :
    Abreast PassState.SameWorld before
      (Pass.into (fun (body, table) flow =>
        .choice span test body c (some { memo := some v, pointers := flow.tableLeft table })) part)
      (Pass.into (fun (body, table) flow =>
        .choice span test body d (some { memo := some v, pointers := flow.tableLeft table })) part')
      (below.Ended goal (Node.SameAs (.choice span test body other p))
        (Node.LeftTwin around (.choice span test body other p) goal below)) := by
  refine ended_into h kept (fun a b alike => alike.choice same same') fun level stash stash' a b marks => ?_
  obtain ⟨rfl, inner, twin, left⟩ := marks
  exact ⟨left.open_, left.same.choice same same', .holds truthy kept twin left.twins (same.trans same'.symm)⟩

theorem ended_fails {nodes nodes' other : List Node} (falsy : v.isTruthy = false) (kept : ∀ x, goal x → between x)
    (h : Abreast PassState.SameWorld before part part' (below.Ended between (fun a b => Node.SameAsAll other a.1 b.1)
      (Inside (fun level => Node.LeftTwins around other inGoal (level :: below)) below between)))
    (same : Node.SameAsAll body nodes nodes') :
    Abreast PassState.SameWorld before
      (Pass.into (fun (other, table) flow =>
        .choice span test nodes (some other) (some { memo := some v, pointers := flow.tableLeft table })) part)
      (Pass.into (fun (other, table) flow =>
        .choice span test nodes' (some other) (some { memo := some v, pointers := flow.tableLeft table })) part')
      (below.Ended goal (Node.SameAs (.choice span test body (some other) p))
        (Node.LeftTwin around (.choice span test body (some other) p) goal below)) := by
  refine ended_into h kept (fun a b alike => same.choice (congrArg some alike.1) (congrArg some alike.2))
    fun level stash stash' a b marks => ?_
  obtain ⟨rfl, inner, twin, left⟩ := marks
  exact ⟨left.open_, same.choice (congrArg some left.same.1) (congrArg some left.same.2),
    .fails falsy kept twin left.twins (same.1.trans same.2.symm)⟩

variable {e : Expr} {item : Binding} {index : Option Binding}

theorem ended_idle {nodes nodes' other : List Node} (kept : ∀ x, goal x → between x)
    (h : Abreast PassState.SameWorld before part part' (below.Ended between (fun a b => Node.SameAsAll other a.1 b.1)
      (Inside (fun level => Node.LeftTwins around other inGoal (level :: below)) below between)))
    (same : Node.SameAsAll body nodes nodes') :
    Abreast PassState.SameWorld before
      (Pass.into (fun (other, table) flow => .loop span e item index nodes (some other)
        (some { memo := some (.array []), pointers := flow.tableLeft table })) part)
      (Pass.into (fun (other, table) flow => .loop span e item index nodes' (some other)
        (some { memo := some (.array []), pointers := flow.tableLeft table })) part')
      (below.Ended goal (Node.SameAs (.loop span e item index body (some other) p))
        (Node.LeftTwin around (.loop span e item index body (some other) p) goal below)) := by
  refine ended_into h kept (fun a b alike => same.loop (congrArg some alike.1) (congrArg some alike.2))
    fun level stash stash' a b marks => ?_
  obtain ⟨rfl, inner, twin, left⟩ := marks
  exact ⟨left.open_, same.loop (congrArg some left.same.1) (congrArg some left.same.2),
    .idle kept twin left.twins (same.1.trans same.2.symm)⟩

theorem ended_loop {part part' : Pass σ (Pass.Rounds × Flow)} {vs : List Value} (kept : ∀ x, goal x → between x)
    (needs : ∀ x ∈ ((Node.usesOfAll body).within (Binding.names item index)).needs, between x)
    (h : Abreast PassState.SameWorld before part part' (below.Ended between
      (fun a b => Node.SameAsAll body a.body b.body) (Node.LeftRounds around body between vs.length below)))
    (same : c.map Node.clearedAll = other.map Node.clearedAll) (same' : d.map Node.clearedAll = other.map Node.clearedAll) :
    Abreast PassState.SameWorld before
      (Pass.into (fun r _ => .loop span e item index r.body c
        (some { memo := some (.array vs), pointers := r.table, round := r.round })) part)
      (Pass.into (fun r _ => .loop span e item index r.body d
        (some { memo := some (.array vs), pointers := r.table, round := r.round })) part')
      (below.Ended goal (Node.SameAs (.loop span e item index body other p))
        (Node.LeftTwin around (.loop span e item index body other p) goal below)) := by
  refine ended_into h kept (fun a b alike => alike.loop same same') fun level stash stash' a b left => ?_
  obtain ⟨open_, alike, rfl, ⟨n, there, round, round'⟩, inner, inGoal, table, table', given, given', twin, twins⟩ := left
  refine ⟨open_, alike.loop same same', ?_⟩
  rw [given, given', round, round']
  refine .round there kept twin twins (fun x need => needs x ?_) (same.trans same'.symm)
  rwa [alike.uses_eq] at need

variable {attributes : List Attribute} {values : Attributes} {inside : Surroundings}

theorem ended_element {part part' : Pass σ (List Node × Flow)} {tag : Tag}
    (marks : ∀ {level : Level} {stash stash' : Stash} {a b : List Node},
      Node.TwinAll stash stash' level below goal a b → Node.Twin stash stash' level below goal
        (.element span tag attributes a (some { memo := some (.object values) }))
        (.element span tag attributes b (some { memo := some (.object values) })))
    (kept : ∀ x, goal x → inGoal x)
    (h : Abreast PassState.SameWorld before part part'
      (below.Ended inGoal (Node.SameAsAll body) (Node.LeftTwins inside body inGoal below)))
    (within : inside.inStep = around.inStep) :
    Abreast PassState.SameWorld before
      (Pass.into (fun body _ => .element span tag attributes body (some { memo := some (.object values) })) part)
      (Pass.into (fun body _ => .element span tag attributes body (some { memo := some (.object values) })) part')
      (below.Ended goal (Node.SameAs (.element span tag attributes body p))
        (Node.LeftTwin around (.element span tag attributes body p) goal below)) :=
  ended_into h kept (fun _ _ same => same.element) fun _ _ _ _ _ left =>
    ⟨within ▸ left.open_, left.same.element, marks (left.twins.fewer kept)⟩

theorem ended_scope {part part' : Pass σ ((List Node × Scope) × Flow)} {q q' : Progress}
    (marked : q.memo = some (.object values) ∧ q.done = false ∧ q.round = none)
    (marked' : q'.memo = some (.object values) ∧ q'.done = false ∧ q'.round = none)
    (kept : ∀ x, goal x → between x)
    (h : Abreast PassState.SameWorld before part part' (below.Ended between (fun a b => Node.SameAsAll body a.1 b.1)
      (Enclosed (Node.LeftTwins around body inGoal []) between))) :
    Abreast PassState.SameWorld before
      (Pass.into (fun (body, scope) flow => .element span .scope attributes body
        (some (Pass.closedMarks q flow scope))) part)
      (Pass.into (fun (body, scope) flow => .element span .scope attributes body
        (some (Pass.closedMarks q' flow scope))) part')
      (below.Ended goal (Node.SameAs (.element span .scope attributes body p))
        (Node.LeftTwin around (.element span .scope attributes body p) goal below)) := by
  refine ended_into h kept (fun _ _ same => same.element) fun level stash stash' a b marks => ?_
  obtain ⟨rfl, inner, twin, left⟩ := marks
  obtain ⟨done, memo, pointers, round, kept⟩ := q
  obtain ⟨done, memo, pointers, round, kept⟩ := q'
  obtain ⟨rfl, rfl, rfl⟩ := marked
  obtain ⟨rfl, rfl, rfl⟩ := marked'
  exact ⟨left.open_, left.same.element, .scope ‹_› twin left.twins⟩

end Marks

/-! ## Visits -/

section Walk

variable (host : Host σ) (options : Options)

mutual

/-- **Both passes visit a node alike** where they know what it needs. -/
theorem visits_walk (around : Surroundings) : ∀ (n : Node) (below : View) (known : Known),
    (∀ x ∈ n.uses.needs, known x) → Visits below known (known.and n.uses.gives) (Node.SameAs n)
      (Node.LeftTwin around n (known.and n.uses.gives) below) (Pass.walk (Expr.eval host) options around true n)
      (Pass.walk (Expr.eval host) options around true n)
  | .text .., _, _, _ =>
    Even.leads (even_of_apart (Pass.blind_addSegment _) (Pass.apart_addSegment _)) fun _ =>
      visits_pure ⟨rfl, rfl⟩ fun _ given => given.elim id nofun
  | .comment .., _, _, _ => visits_pure ⟨rfl, rfl⟩ fun _ given => given.elim id nofun
  | .config .., _, _, _ =>
    Even.leads (even_of_apart (Pass.blind_meetHeader _ _) (Pass.apart_meetHeader _ _)) fun _ =>
      visits_pure ⟨rfl, rfl⟩ fun _ given => given.elim id nofun
  | .interpolation span e _, _, _, all =>
    Even.visits (even_interpolate host options around span e) all fun _ => visits_pure ⟨rfl, rfl⟩ fun _ => id
  | .group span body _, below, known, all => by
    unfold Pass.walk
    exact ended_group (visits_walkAll around body below known all) rfl rfl
  | .choice span test body none _, below, known, all => by
    unfold Pass.walk
    refine Even.visits (even_evaluate host test) (Uses.met_left all) fun holds => ?_
    have kept : ∀ x, known.and (test.uses.next (Node.usesOfAll body).maybe).gives x → known.and test.uses.gives x :=
      fun x given => (Uses.known_of_next given).elim id nofun
    by_cases truthy : holds.isTruthy = true
    · rw [if_pos truthy]
      exact ended_holds truthy kept (visits_inView _ (fun level => _) fun level _ =>
        visits_walkAll around body (level :: below) _ (Uses.met_right all)) rfl rfl
    · rw [if_neg truthy]
      exact visits_pure ((Node.sameAsAll_untouched body).choice rfl rfl) kept
  | .choice span test body (some other) _, below, known, all => by
    unfold Pass.walk
    refine Even.visits (even_evaluate host test) (Uses.met_left all) fun holds => ?_
    have after := Uses.met_right all
    have first := Uses.met_left after
    have kept : ∀ x, known.and (test.uses.next ((Node.usesOfAll body).maybe.next (Node.usesOfAll other).maybe)).gives x →
        known.and test.uses.gives x :=
      fun x given => (Uses.known_of_next given).elim id nofun
    by_cases truthy : holds.isTruthy = true
    · rw [if_pos truthy]
      have same : (some (Pass.untouched true other)).map Node.clearedAll = (some other).map Node.clearedAll :=
        congrArg some (Node.clearedAll_clearedAll other)
      exact ended_holds truthy kept (visits_inView _ (fun level => _) fun level _ =>
        visits_walkAll around body (level :: below) _ first) same same
    · rw [if_neg truthy]
      exact ended_fails (Bool.eq_false_iff.mpr truthy) kept (visits_inView _ (fun level => _) fun level _ =>
        visits_walkAll around other (level :: below) _ fun x need => (Uses.met_right after x need).elim id nofun)
        (Node.sameAsAll_untouched body)
  | .loop span items item index body none _, below, known, all => by
    unfold Pass.walk
    refine Even.visits (even_evaluate host items) (Uses.met_left all) fun v => ?_
    have needs := Uses.met_right all
    have kept : ∀ x, known.and (items.uses.next ((Node.usesOfAll body).within (Binding.names item index))).gives x →
        known.and items.uses.gives x :=
      fun x given => (Uses.known_of_next given).elim id nofun
    refine Even.leads_of_yields (even_of_apart (Pass.blind_itemsOf items v) (Pass.still_itemsOf items v).apart)
      (yields_itemsOf items v) fun vs array => ?_
    subst array
    exact ended_loop kept needs (Nat.zero_add vs.length ▸
      visits_rounds (visits_walkAll around body) needs vs 0 _ _ none (Node.sameAsAll_untouched body)) rfl rfl
  | .loop span items item index body (some other) _, below, known, all => by
    unfold Pass.walk
    refine Even.visits (even_evaluate host items) (Uses.met_left all) fun v => ?_
    have after := Uses.met_right all
    have needs := Uses.met_left after
    have kept : ∀ x, known.and (items.uses.next (((Node.usesOfAll body).within (Binding.names item index)).next
        (Node.usesOfAll other).maybe)).gives x → known.and items.uses.gives x :=
      fun x given => (Uses.known_of_next given).elim id nofun
    refine Even.leads_of_yields (even_of_apart (Pass.blind_itemsOf items v) (Pass.still_itemsOf items v).apart)
      (yields_itemsOf items v) fun vs array => ?_
    subst array
    cases vs with
    | nil =>
      exact ended_idle kept (visits_inView _ (fun level => _) fun level _ =>
        visits_walkAll around other (level :: below) _ fun x need => (Uses.met_right after x need).elim id nofun)
        (Node.sameAsAll_untouched body)
    | cons v vs =>
      have same : (some (Pass.untouched true other)).map Node.clearedAll = (some other).map Node.clearedAll :=
        congrArg some (Node.clearedAll_clearedAll other)
      exact ended_loop kept needs (Nat.zero_add (v :: vs).length ▸ visits_rounds (visits_walkAll around body) needs
        (v :: vs) 0 _ _ none (Node.sameAsAll_untouched body)) same same
  | .element span tag attributes body _, below, known, all => by
    unfold Pass.walk
    refine Even.leads (even_of_apart (Pass.blind_flushPassage options) (Pass.apart_flushPassage options)) fun _ => ?_
    refine Even.visits (even_attributeValues host attributes) (Uses.met_left all) fun values => ?_
    have after := Uses.met_right all
    cases tag with
    | content kind =>
      exact ended_element .content (fun _ => Uses.known_of_next) (visits_content options around span kind values
        (visits_walkAll { around with inContent := true } body below _ after)) rfl
    | message role =>
      exact ended_element .message (fun _ => Uses.known_of_next) (visits_message options around span role values
        (visits_walkAll { around with inMessage := true } body below _ after)) rfl
    | scope =>
      -- The scopes hold the attributes, and so both know all names.
      obtain ⟨above, above', twin⟩ := Scope.twin_ofList fun _ _ => Eq.refl (Fields.get? _ (Fields.ofList values))
      have kept : ∀ x, known.and ((Attribute.usesOf attributes).next .none).gives x →
          known.and (Attribute.usesOf attributes).gives x :=
        fun x given => (Uses.known_of_next given).elim id nofun
      exact visits_newScope values body (ended_scope ⟨rfl, rfl, rfl⟩ ⟨rfl, rfl, rfl⟩ kept
        (visits_inScope twin (visits_walkAll around body [] (fun _ => True) fun _ _ => trivial)))
    | step =>
      refine ended_into (visits_step (visits_walkAll { around with inStep := true } body) options span attributes values
        (Uses.met_left after)) (fun _ => id) (fun _ _ => False.elim) fun level stash stash' a b left => ?_
      obtain ⟨open_, knows, nodes, nodes', rfl, rfl, same⟩ := left
      refine ⟨open_, same.element, .step (fun x given => ?_) (same.1.trans same.2.symm)⟩
      rcases Uses.known_of_next given with here | given
      · exact .inl (knows x (.inl here))
      · rcases List.mem_append.mp given with given | given
        · exact .inl (knows x (.inr given))
        · exact .inr given
    | reference => exact .throw fun _ _ here => below.lasting_quiet.failed here

/-- So they visit nodes in order. -/
theorem visits_walkAll (around : Surroundings) : ∀ nodes : List Node,
    Visiting around nodes (Pass.walkAll (Expr.eval host) options around true nodes)
  | [], _, _, _ => visits_pure ⟨rfl, rfl⟩ fun _ given => given.elim id nofun
  | n :: r, below, known, all => by
    unfold Pass.walkAll
    rw [Bool.not_true, Bool.false_and, if_neg Bool.false_ne_true]
    have after : ∀ x ∈ (Node.usesOfAll r).needs, known.and n.uses.gives x := Uses.met_right all
    have rest : ∀ x, known.and (n.uses.next (Node.usesOfAll r)).gives x →
        (known.and n.uses.gives).and (Node.usesOfAll r).gives x := fun _ => Uses.known_of_next
    refine ended_goingOn (visits_walk around n below known (Uses.met_left all))
      (fun level stash stash' a b left => ⟨left.open_, left.same.cons (Node.sameAsAll_untouched r), ?_⟩)
      fun a b same => ended_into (visits_walkAll around r below _ after) rest (fun c d later => same.finished.cons later)
        fun level stash stash' c d left => ⟨left.open_, same.finished.cons left.same, ?_⟩
    · have same : Node.usesOfAll (Pass.untouched true r) = Node.usesOfAll r := Node.usesOfAll_clearedAll r
      exact .here left.twin (Node.clearedAll_clearedAll r) (same ▸ after) (same ▸ rest)
    · exact .done (Node.isDone_finished a) (Node.isDone_finished b) (same.finished.1.trans same.finished.2.symm)
        (left.twins.fewer rest)

end

end Walk
end View
end PromptScript
