import PromptScript.Proofs.Passes

/-! # Parts that stand aside

A part of a pass adds to what has been gathered, and looks at nothing of it but the passage and the content that
waits. So it does the same after other messages and headers, and, unless it is a step, whatever response waits. From
this follows that a whole pass does the same after other passes. -/
namespace PromptScript

variable {σ : Type}

/-- The state after an earlier one, with something else for the response and the machine. -/
def PassState.amid (past : PassState σ) (g : Option (List Content) → Option (List Content))
    (h : Machine σ → Machine σ) (s : PassState σ) : PassState σ :=
  ⟨h s.machine, past.messages ++ s.messages, s.passage, s.pending, g s.response,
    s.globalConfig.or past.globalConfig, s.stepConfig.or past.stepConfig⟩

/-- The state after an earlier one. -/
abbrev PassState.leading (past : PassState σ) : PassState σ → PassState σ := past.amid id id

/-- The state before anything has been gathered. -/
def PassState.opening (m : Machine σ) (response : Option (List Content)) : PassState σ :=
  ⟨m, #[], [], [], response, none, none⟩

/-- Where nothing has been gathered there is nothing to come after. -/
theorem PassState.amid_opening (m : Machine σ) (r : Option (List Content))
    (g : Option (List Content) → Option (List Content)) (h : Machine σ → Machine σ) (s : PassState σ) :
    (opening m r).amid g h s = { s with machine := h s.machine, response := g s.response } := by
  simp [amid, opening]

namespace Pass

variable {α β : Type}

/-- A part that looks neither at what has been gathered before nor at the response. -/
def Aside (part : Pass σ α) : Prop := ∀ past g, Commutes (PassState.amid past g id) part

/-- A part that does not look at the machine either. -/
def Apart (part : Pass σ α) : Prop := ∀ past g h, Commutes (PassState.amid past g h) part

theorem Still.apart {part : Pass σ α} (h : Still part) : Apart part := fun _ _ _ => h.commutes

theorem Apart.aside {part : Pass σ α} (h : Apart part) : Aside part := fun past g => h past g id

theorem Still.aside {part : Pass σ α} (h : Still part) : Aside part := h.apart.aside

theorem aside_pure (a : α) : Aside (pure a : Pass σ α) := (still_pure a).aside

theorem Apart.bind {part : Pass σ α} {k : α → Pass σ β} (first : Apart part) (rest : ∀ a, Apart (k a)) :
    Apart (part >>= k) :=
  fun past g h => (first past g h).bind fun a => rest a past g h

theorem Aside.bind {part : Pass σ α} {k : α → Pass σ β} (first : Aside part) (rest : ∀ a, Aside (k a)) :
    Aside (part >>= k) :=
  fun past g => (first past g).bind fun a => rest a past g

/-- A part that looks only at what waits does the same with another scope. -/
theorem Apart.runs_withScope {part : Pass σ α} (h : Apart part) {s t : PassState σ} {a : α} (ran : Runs part s a t)
    (scope : Scope) : Runs part (s.withScope scope) a (t.withScope scope) := by
  have same := (h (.opening s.machine none) id fun m => { m with scope }).runs ran
  rwa [PassState.amid_opening, PassState.amid_opening] at same

/-- It leaves the machine. -/
theorem Apart.machine_eq {part : Pass σ α} (h : Apart part) {s t : PassState σ} {a : α} (ran : Runs part s a t) :
    t.machine = s.machine := by
  have same := (h (.opening s.machine none) id fun _ => s.machine).runs ran
  rw [PassState.amid_opening, PassState.amid_opening] at same
  obtain ⟨-, last⟩ := ran.unique same
  rw [last]

/-- A part that stands aside leaves the response. -/
theorem Aside.response_eq {part : Pass σ α} (h : Aside part) {s t : PassState σ} {a : α} (ran : Runs part s a t) :
    t.response = s.response := by
  have same := (h (.opening s.machine none) fun _ => s.response).runs ran
  rw [PassState.amid_opening, PassState.amid_opening] at same
  obtain ⟨-, last⟩ := ran.unique same
  rw [last]

/-! ## Gathering -/

variable (eval : Evaluator σ) (options : Options)

theorem result_evaluate (e : Expr) (s : PassState σ) : (evaluate eval e).result s =
    (((eval e).run.run s.machine).1, { s with machine := ((eval e).run.run s.machine).2 }) := by
  unfold evaluate
  rw [(show Runs get s s s from rfl).result_bind]
  obtain ⟨_ | v, m⟩ := (eval e).run.run s.machine <;> rfl

theorem aside_evaluate (e : Expr) : Aside (evaluate eval e) := by
  intro past g s
  rw [result_evaluate, result_evaluate]
  rfl

theorem aside_modifyScope (change : Scope → Scope) : Aside (modifyScope change : Pass σ Unit) :=
  fun _ _ => commutes_modify fun _ => rfl

theorem apart_addSegment (segment : Segment) : Apart (addSegment segment : Pass σ Unit) :=
  fun _ _ _ => commutes_modify fun _ => rfl

theorem apart_addContent (content : Content) (span : Span) : Apart (addContent content span : Pass σ Unit) :=
  fun _ _ _ => commutes_modify fun _ => rfl

theorem apart_addMessage (m : Message) : Apart (addMessage m : Pass σ Unit) :=
  fun _ _ _ => commutes_modify fun s => by simp only [PassState.amid, Array.append_push]

theorem apart_takeParagraph : Apart (takeParagraph : Pass σ (Option Paragraph)) := fun _ _ _ _ => rfl

theorem apart_flushPassage : Apart (flushPassage options : Pass σ Unit) := by
  refine apart_takeParagraph.bind fun p => ?_
  cases p with
  | none => exact (still_pure _).apart
  | some p => exact apart_addContent _ _

theorem apart_takeContent : Apart (takeContent options : Pass σ (List (Content × Span))) :=
  (apart_flushPassage options).bind fun _ => fun _ _ _ _ => rfl

theorem apart_flushContent : Apart (flushContent options : Pass σ Unit) := by
  refine (apart_takeContent options).bind fun content => ?_
  cases content with
  | nil => exact (still_pure _).apart
  | cons _ _ => exact (still_messageOf _ _ _).apart.bind fun _ => apart_addMessage _

theorem flushPassage_of_blank {s : PassState σ} (h : s.Blank) : Runs (flushPassage options) s () s := by
  obtain ⟨machine, messages, passage, pending, response, header, settings⟩ := s
  obtain ⟨rfl, rfl⟩ := h
  rfl

theorem flushContent_of_blank {s : PassState σ} (h : s.Blank) : Runs (flushContent options) s () s := by
  obtain ⟨machine, messages, passage, pending, response, header, settings⟩ := s
  obtain ⟨rfl, rfl⟩ := h
  rfl

theorem passage_of_flushPassage {s t : PassState σ} (h : Runs (flushPassage options) s () t) : t.passage = [] := by
  obtain ⟨p, s', taken, added⟩ := runs_bind.mp h
  obtain ⟨-, rfl⟩ := Prod.mk.inj taken
  cases p with
  | none =>
    obtain ⟨-, rfl⟩ := runs_pure.mp added
    rfl
  | some p =>
    obtain ⟨-, rfl⟩ := Prod.mk.inj added
    rfl

/-- After all content has become messages nothing waits. -/
theorem blank_of_flushContent {s t : PassState σ} (h : Runs (flushContent options) s () t) : t.Blank := by
  obtain ⟨content, s', taken, rest⟩ := runs_bind.mp h
  have blank : s'.Blank := by
    obtain ⟨⟨⟩, s₁, flushed, taken⟩ := runs_bind.mp taken
    have empty := passage_of_flushPassage options flushed
    obtain ⟨-, rfl⟩ := Prod.mk.inj taken
    exact ⟨empty, rfl⟩
  cases content with
  | nil =>
    obtain ⟨-, rfl⟩ := runs_pure.mp rest
    exact blank
  | cons c content =>
    obtain ⟨m, s₂, made, added⟩ := runs_bind.mp rest
    obtain ⟨rfl, -⟩ := (still_messageOf _ _ _).runs made
    obtain ⟨-, rfl⟩ := Prod.mk.inj added
    exact ⟨blank.passage, blank.pending⟩

/-! ## Tags -/

theorem apart_putValue (around : Surroundings) (span : Span) (name : Option String) (v : Value) :
    Apart (putValue options around span name v : Pass σ Unit) := by
  have adds : ∀ files : List Attachment,
      Apart (files.forM fun file => addContent file.toContent span : Pass σ PUnit) := by
    intro files
    induction files with
    | nil => exact (still_pure _).apart
    | cons file files ih => exact (apart_addContent _ _).bind fun _ => ih
  unfold putValue
  split
  · exact apart_addSegment _
  · split
    · split
      · exact apart_addSegment _
      · exact (still_fail _ _).apart
    · exact (apart_flushPassage options).bind fun _ => adds _

/-- What an interpolation does with its value. -/
theorem apart_interpolated (around : Surroundings) (span : Span) (e : Expr) (v : Value) : Apart (do
    if e.isAssignment then return ()
    match v with
    | .undefined => return ()
    | v => putValue options around span e.name? v : Pass σ Unit) := by
  split
  · exact (still_pure _).apart
  · split
    · exact (still_pure _).apart
    · exact apart_putValue options _ _ _ _

theorem aside_interpolate (around : Surroundings) (span : Span) (e : Expr) :
    Aside (interpolate eval options around span e) :=
  (aside_evaluate eval e).bind fun v => (apart_interpolated options around span e v).aside

theorem aside_attributeParts (parts : List Node) : Aside (attributeParts eval parts) := by
  fun_induction attributeParts eval parts with
  | case1 => exact aside_pure _
  | case2 _ _ _ _ ih => exact ih.bind fun _ => aside_pure _
  | case3 _ e _ _ ih =>
    refine (aside_evaluate eval e).bind fun v => ?_
    split
    · exact ih
    · exact ih.bind fun _ => aside_pure _
  | case4 _ _ _ _ ih => exact ih

theorem aside_attributeValues (attributes : List Attribute) (acc : Attributes) :
    Aside (attributeValues eval attributes acc) := by
  fun_induction attributeValues eval attributes acc with
  | case1 => exact aside_pure _
  | case2 _ _ _ _ ih => exact ih
  | case3 _ _ parts _ _ ih ih' ih'' =>
    refine (aside_attributeParts eval parts).bind fun vs => ?_
    split
    · exact ih
    · exact ih' _
    · exact ih'' _

theorem apart_openMessage (around : Surroundings) (span : Span) (role : Option Role) (attributes : Attributes) :
    Apart (openMessage options around span role attributes : Pass σ (Role × Attributes)) := by
  have opens := (apart_flushContent (σ := σ) options).bind fun _ => (still_roleOf span role attributes).apart
  unfold openMessage
  split
  · exact (still_fail _ _).apart.bind fun _ => opens
  · exact opens

theorem apart_closeMessage (span : Span) (role : Role) (attributes : Attributes) :
    Apart (closeMessage options span role attributes : Pass σ Unit) := by
  refine (apart_takeContent options).bind fun content => (still_messageOf _ _ _).apart.bind fun m => ?_
  split
  · exact (still_toolAnswer _ _ _).apart.bind fun _ => apart_addMessage _
  · exact apart_addMessage _

theorem apart_closeContent (span : Span) (kind : ContentKind) (attributes : Attributes) :
    Apart (closeContent options span kind attributes : Pass σ Unit) := by
  refine apart_takeParagraph.bind fun p => (still_itemOf _ _ _ _ _).apart.bind fun item => ?_
  cases item with
  | none => exact (still_pure _).apart
  | some item => exact apart_addContent _ _

theorem aside_write (name : String) (v : Value) : Aside (write name v : Pass σ Unit) := aside_modifyScope _

theorem aside_closeStep (span : Span) (head : StepHead) (response : List Content) :
    Aside (closeStep span head response : Pass σ Unit) := by
  obtain ⟨resultName, rawName, config⟩ := head
  have named : ∀ name, Aside (do
      write name (← responseValue span (Fields.has "schema" config) response) : Pass σ Unit) :=
    fun _ => (still_responseValue _ _ _).aside.bind fun _ => aside_write _ _
  cases rawName with
  | none =>
    cases resultName with
    | none => exact aside_pure _
    | some name => exact named name
  | some rawName =>
    refine (aside_write rawName _).bind fun _ => ?_
    cases resultName with
    | none => exact aside_pure _
    | some name => exact named name

/-- What a step does with its response concerns the scope alone. -/
theorem closeStep_withScope {span : Span} {head : StepHead} {r : List Content} {s t : PassState σ}
    (ran : Runs (closeStep span head r) s () t) : ∃ scope, t = s.withScope scope := by
  obtain ⟨resultName, rawName, config⟩ := head
  have named : ∀ name (s t : PassState σ), Runs (do
      write name (← responseValue span (Fields.has "schema" config) r)) s () t → ∃ scope, t = s.withScope scope := by
    intro name s t ran
    obtain ⟨v, s', read, wrote⟩ := runs_bind.mp ran
    obtain ⟨rfl, -⟩ := (still_responseValue _ _ _).runs read
    obtain ⟨-, rfl⟩ := Prod.mk.inj wrote
    exact ⟨_, rfl⟩
  cases rawName with
  | none =>
    cases resultName with
    | none =>
      obtain ⟨-, rfl⟩ := Prod.mk.inj ran
      exact ⟨_, rfl⟩
    | some name => exact named name _ _ ran
  | some rawName =>
    obtain ⟨⟨⟩, s', wrote, rest⟩ := runs_bind.mp ran
    obtain ⟨-, rfl⟩ := Prod.mk.inj wrote
    cases resultName with
    | none =>
      obtain ⟨-, rfl⟩ := Prod.mk.inj rest
      exact ⟨_, rfl⟩
    | some name =>
      obtain ⟨scope, rfl⟩ := named name _ _ rest
      exact ⟨scope, rfl⟩

theorem apart_leaveSettings (head : StepHead) : Apart (leaveSettings head : Pass σ Unit) :=
  fun _ _ _ => commutes_modify fun _ => rfl

theorem aside_declareItem (item : Binding) (index : Option Binding) (v : Value) (n : Nat) :
    Aside (declareItem item index v n : Pass σ Unit) := by
  refine (aside_modifyScope _).bind fun _ => ?_
  cases index with
  | none => exact aside_pure _
  | some index => exact aside_modifyScope _

theorem apart_meetHeader (span : Span) (data : String) : Apart (meetHeader span data : Pass σ Unit) := by
  unfold meetHeader
  split
  · exact (still_fail _ _).apart
  · exact fun _ _ _ => commutes_modify fun _ => rfl

theorem aside_remembered (p : Progress) {find : Pass σ Value} (h : Aside find) : Aside (remembered p find) := by
  unfold remembered
  split
  · exact aside_pure _
  · exact h

theorem aside_rememberedAttributes (p : Progress) (attributes : List Attribute) :
    Aside (rememberedAttributes eval p attributes) := by
  unfold rememberedAttributes
  split
  · exact aside_pure _
  · exact aside_attributeValues eval _ _

theorem still_closedScope (p : Progress) (attributes : Attributes) (body : List Node) :
    Still (closedScope p attributes body : Pass σ Scope) := by
  unfold closedScope
  split
  · exact still_pure _
  · exact still_newScope _ _

/-! ## Whole passes -/

section Amid

variable {past : PassState σ} {g : Option (List Content) → Option (List Content)}

theorem Commutes.inView {table : Option Pointers} {part : Pass σ (α × Flow)} (h : Commutes (past.amid g id) part) :
    Commutes (past.amid g id) (inView table part) := by
  intro s
  rw [result_inView, result_inView]
  rw [show (past.amid g id s).withTable (table.getD (past.amid g id s).table) =
    past.amid g id (s.withTable (table.getD s.table)) from rfl, h]
  obtain ⟨_ | ⟨a, flow⟩, t⟩ := part.result (s.withTable (table.getD s.table)) <;> rfl

theorem Commutes.inScope {scope : Scope} {part : Pass σ (α × Flow)} (h : Commutes (past.amid g id) part) :
    Commutes (past.amid g id) (inScope scope part) := by
  intro s
  rw [result_inScope, result_inScope]
  rw [show (past.amid g id s).withScope scope = past.amid g id (s.withScope scope) from rfl, h]
  obtain ⟨_ | ⟨a, flow⟩, t⟩ := part.result (s.withScope scope) <;> rfl

end Amid

section After

variable {past : PassState σ}

theorem commutes_content {around : Surroundings} {span : Span} {kind : Option ContentKind} {attributes : Attributes}
    {body : Pass σ (α × Flow)} (h : Commutes (past.leading) body) :
    Commutes (past.leading) (content options around span kind attributes body) :=
  (still_openContent around span kind attributes).commutes.bind fun _ => h.closing ((apart_closeContent options _ _ _).aside _ _)

theorem commutes_message {around : Surroundings} {span : Span} {role : Option Role} {attributes : Attributes}
    {body : Pass σ (α × Flow)} (h : Commutes (past.leading) body) :
    Commutes (past.leading) (message options around span role attributes body) :=
  ((apart_openMessage options around span role attributes).aside _ _).bind fun _ =>
    h.closing ((apart_closeMessage options _ _ _).aside _ _)

theorem commutes_step {around : Surroundings} {span : Span} {tags : List Attribute} {attributes : Attributes}
    {body : Pass σ (α × Flow)} (h : Commutes (past.leading) body) :
    Commutes (past.leading) (step options around span tags attributes body) := by
  have takes : Commutes (past.leading) takeResponse := fun _ => rfl
  refine (still_openStep around span tags attributes).commutes.bind fun head => takes.bind fun response => ?_
  cases response with
  | none => exact h.bind fun _ => ((apart_leaveSettings _).aside _ _).bind fun _ => commutes_pure _
  | some response =>
    exact (aside_closeStep _ _ _ _ _).bind fun _ => ((apart_flushContent options).aside _ _).bind fun _ => commutes_pure _

theorem commutes_rounds {item : Binding} {index : Option Binding} {again : Pass σ (List Node × Flow)}
    (h : Commutes (past.leading) again) (vs : List Value) (n : Nat) (body : List Node) (round : Option Nat) :
    Commutes (past.leading) (rounds item index again vs n body round) := by
  induction vs generalizing n body round with
  | nil => exact commutes_pure _
  | cons v vs ih =>
    exact (((aside_declareItem _ _ _ _ _ _).bind fun _ => h).inView).goingOn fun _ => ih _ _ _

theorem commutes_roundsFrom {p : Progress} {item : Binding} {index : Option Binding} {vs : List Value}
    {body : List Node} {resume again : Pass σ (List Node × Flow)} (h : Commutes (past.leading) resume)
    (h' : Commutes (past.leading) again) :
    Commutes (past.leading) (roundsFrom p item index vs body resume again) := by
  unfold roundsFrom
  dsimp only
  split
  · exact h.inView.goingOn fun _ => commutes_rounds h' _ _ _ _
  · exact commutes_rounds h' _ _ _ _

mutual

theorem commutes_walk (around : Surroundings) (anew : Bool) : ∀ n : Node,
    Commutes (past.leading) (walk eval options around anew n)
  | .text .. => ((apart_addSegment _).aside _ _).bind fun _ => commutes_pure _
  | .comment .. => commutes_pure _
  | .config .. => ((apart_meetHeader _ _).aside _ _).bind fun _ => commutes_pure _
  | .interpolation .. => (aside_interpolate eval options _ _ _ _ _).bind fun _ => commutes_pure _
  | .group _ body _ => by
    unfold walk
    exact (commutes_walkAll around anew body).into
  | .choice _ test body none _ => by
    unfold walk
    refine (aside_remembered _ (aside_evaluate eval test) _ _).bind fun holds => ?_
    dsimp only
    split
    · exact (commutes_walkAll around anew body).inView.into
    · exact commutes_pure _
  | .choice _ test body (some other) _ => by
    unfold walk
    refine (aside_remembered _ (aside_evaluate eval test) _ _).bind fun holds => ?_
    dsimp only
    split
    · exact (commutes_walkAll around anew body).inView.into
    · exact (commutes_walkAll around anew other).inView.into
  | .loop _ items _ _ body none _ => by
    unfold walk
    refine (aside_remembered _ (aside_evaluate eval items) _ _).bind fun v => (still_itemsOf _ _).commutes.bind fun _ => ?_
    exact (commutes_roundsFrom (commutes_walkAll around anew body) (commutes_walkAll around true body)).into
  | .loop _ items _ _ body (some other) _ => by
    unfold walk
    refine (aside_remembered _ (aside_evaluate eval items) _ _).bind fun v => (still_itemsOf _ _).commutes.bind fun vs => ?_
    split
    · exact (commutes_walkAll around anew other).inView.into
    · exact (commutes_roundsFrom (commutes_walkAll around anew body) (commutes_walkAll around true body)).into
  | .element span tag attributes body p => by
    unfold walk
    refine ((apart_flushPassage options).aside _ _).bind fun _ => (aside_rememberedAttributes eval _ _ _ _).bind fun values => ?_
    dsimp only
    split
    · exact (commutes_content options (commutes_walkAll _ anew body)).into
    · exact (commutes_message options (commutes_walkAll _ anew body)).into
    · exact (still_closedScope _ _ _).commutes.bind fun _ => (commutes_walkAll around anew body).inScope.into
    · exact (commutes_step options (commutes_walkAll _ anew body)).into
    · exact (still_fail _ _).commutes

theorem commutes_walkAll (around : Surroundings) (anew : Bool) : ∀ nodes : List Node,
    Commutes (past.leading) (walkAll eval options around anew nodes)
  | [] => commutes_pure _
  | n :: r => by
    unfold walkAll
    split
    · exact (commutes_walkAll around anew r).into
    · exact (commutes_walk around anew n).goingOn fun _ => (commutes_walkAll around anew r).into

end

end After
end Pass

/-- **A pass does the same after other passes.** What went before stands before its messages. -/
theorem Document.commutes_visit (eval : Evaluator σ) (options : Options) (d : Document) (past : PassState σ) :
    Pass.Commutes (past.leading) (d.visit eval options) := by
  refine (Pass.commutes_walkAll eval options {} false d.body).inView.bind fun ((body, table), flow) =>
    ((Pass.apart_flushContent options).aside _ _).bind fun _ => ?_
  cases flow <;> exact Pass.commutes_pure _

/-- A pass that succeeds has visited the document. -/
theorem Document.runs_visit_of_pass (eval : Evaluator σ) (options : Options) {d : Document}
    {response : Option (List Content)} {m m' : Machine σ} {outcome : Outcome}
    (h : d.pass eval options response m = (.ok outcome, m')) :
    ∃ flow t, Pass.Runs (d.visit eval options) (.opening m response) (outcome.document, flow) t ∧ t.machine = m' ∧
      outcome.messages = t.messages.toList ∧ outcome.stash = t.machine.scope.stash ∧
      (outcome.completed = true ↔ flow = .goesOn) := by
  unfold pass at h
  generalize visited : (d.visit eval options).run.run ⟨m, #[], [], [], response, none, none⟩ = ran at h
  obtain ⟨_ | ⟨d', flow⟩, t⟩ := ran
  · cases h
  · obtain ⟨given, rfl⟩ := Prod.mk.inj h
    obtain rfl := Except.ok.inj given
    exact ⟨flow, t, visited, rfl, rfl, rfl, decide_eq_true_iff⟩

end PromptScript
