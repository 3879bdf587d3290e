import PromptScript.Pass.Tags

/-! # The walk over a document

A pass visits the nodes in order. What it has done with them it marks on them, so that the next pass skips what is
done, takes up each choice and loop where it stood, and sees the variables that were in view there. Every round of
a loop starts on a body without marks. -/
namespace PromptScript

/-- The node with the mark that it is done. -/
def Node.finished (n : Node) : Node := n.withProgress (some { n.progress.getD {} with done := true })

/-- The marks that a table of variables leaves where a pass went on or stopped. -/
def Flow.tableLeft : Flow → Pointers → Option Pointers
  | .stops, table => some table
  | .goesOn, _ => none

namespace Pass

variable {σ : Type} (eval : Evaluator σ) (options : Options)

/-- A value that is found once and then kept in the marks of its node. -/
def remembered (p : Progress) (find : Pass σ Value) : Pass σ Value :=
  match p.memo with
  | some v => return v
  | none => find

/-- Nodes that a pass does not reach: those of a body without marks have none. -/
def untouched (anew : Bool) (nodes : List Node) : List Node := if anew then Node.clearedAll nodes else nodes

/-- What the rounds of a loop leave behind. -/
structure Rounds where
  body : List Node
  /-- The last round that was begun. -/
  round : Option Nat
  /-- The variables of the round in which the pass stopped. -/
  table : Option Pointers

/-- Declares the variables of a round. -/
def declareItem (item : Binding) (index : Option Binding) (v : Value) (n : Nat) : Pass σ Unit := do
  declare item.name v
  match index with
  | some index => declare index.name (.number (Float.ofNat n))
  | none => return ()

/-- The rounds of a loop over the given items, the first of which has the number `n`. `body` is the body as the
round before left it. -/
def rounds (item : Binding) (index : Option Binding) (again : Pass σ (List Node × Flow)) :
    List Value → Nat → List Node → Option Nat → Pass σ (Rounds × Flow)
  | [], _, body, round => return (⟨body, round, none⟩, .goesOn)
  | v :: r, n, _, _ =>
    goingOn (inView none (do declareItem item index v n; again)) (fun (body, table) => ⟨body, some n, some table⟩)
      fun (body, _) => rounds item index again r (n + 1) body (some n)

/-- All rounds that are left of a loop. A round that was stopped is gone on with by `resume`. -/
def roundsFrom (p : Progress) (item : Binding) (index : Option Binding) (items : List Value) (body : List Node)
    (resume again : Pass σ (List Node × Flow)) : Pass σ (Rounds × Flow) :=
  let n := p.round.getD 0
  match p.pointers, items.drop n with
  -- The variables of this round are there already, and so are the marks in its body.
  | some table, _ :: r =>
    goingOn (inView (some table) resume) (fun (body, table) => ⟨body, some n, some table⟩)
      fun (body, _) => rounds item index again r (n + 1) body (some n)
  | _, items => rounds item index again items n body p.round

/-- The items of a list. -/
def itemsOf (e : Expr) (v : Value) : Pass σ (List Value) :=
  match v with
  | .array items => return items
  | v => fail (.invalidIterable v.typeName) e.span

/-- The header of a document: its settings count from now on. -/
def meetHeader (span : Span) (data : String) : Pass σ Unit :=
  match Config.ofHeader data with
  | .error cause => fail (.invalidConfig cause) span
  | .ok config => modify fun s => { s with globalConfig := some config }

/-- The scope that a closed part starts with: its attributes. -/
def newScope (attributes : Attributes) (body : List Node) : Pass σ Scope :=
  match Node.closureFaults (Fields.names attributes) body with
  | fault :: _ => throw fault
  | [] => return Scope.ofList attributes

/-- The scope of a closed part: the one it was left with, or a new one. -/
def closedScope (p : Progress) (attributes : Attributes) (body : List Node) : Pass σ Scope :=
  match p.stash with
  | some stash => return ⟨stash, p.pointers.getD .empty⟩
  | none => newScope attributes body

/-- The marks of a closed part: its variables where a pass stopped in it. -/
def closedMarks (p : Progress) (flow : Flow) (scope : Scope) : Progress :=
  match flow with
  | .stops => { p with stash := some scope.stash, pointers := some scope.pointers }
  | .goesOn => { p with stash := none, pointers := if p.stash.isSome then none else p.pointers }

/-- The attributes of a tag, found once. -/
def rememberedAttributes (p : Progress) (attributes : List Attribute) : Pass σ Attributes :=
  match p.memo with
  | some (.object fields) => return fields
  | _ => attributeValues eval attributes []

mutual

/-- Visits a node; `anew` tells that marks on it and in it do not count. -/
def walk (around : Surroundings) (anew : Bool) : Node → Pass σ (Node × Flow)
  | .text span data p => do
    addSegment (.literal data)
    return (.text span data (if anew then none else p), .goesOn)
  | .comment span data p => return (.comment span data (if anew then none else p), .goesOn)
  | .config span data p => do
    meetHeader span data
    return (.config span data (if anew then none else p), .goesOn)
  | .interpolation span e p => do
    interpolate eval options around span e
    return (.interpolation span e (if anew then none else p), .goesOn)
  | .group span body p =>
    into (fun body _ => .group span body (if anew then none else p)) (walkAll around anew body)
  | .choice span test body none p => do
    let p := if anew then {} else p.getD {}
    let holds ← remembered p (evaluate eval test)
    let p := { p with memo := some holds }
    if holds.isTruthy then
      into (fun (body, table) flow => .choice span test body none (some { p with pointers := flow.tableLeft table }))
        (inView p.pointers (walkAll around anew body))
    else return (.choice span test (untouched anew body) none (some { p with pointers := none }), .goesOn)
  | .choice span test body (some other) p => do
    let p := if anew then {} else p.getD {}
    let holds ← remembered p (evaluate eval test)
    let p := { p with memo := some holds }
    if holds.isTruthy then
      into (fun (body, table) flow => .choice span test body (some (untouched anew other))
          (some { p with pointers := flow.tableLeft table }))
        (inView p.pointers (walkAll around anew body))
    else
      into (fun (other, table) flow => .choice span test (untouched anew body) (some other)
          (some { p with pointers := flow.tableLeft table }))
        (inView p.pointers (walkAll around anew other))
  | .loop span items item index body none p => do
    let p := if anew then {} else p.getD {}
    let v ← remembered p (evaluate eval items)
    let vs ← itemsOf items v
    into (fun r _ => .loop span items item index r.body none
        (some { p with memo := some v, pointers := r.table, round := r.round }))
      (roundsFrom p item index vs (untouched anew body) (walkAll around anew body) (walkAll around true body))
  | .loop span items item index body (some other) p => do
    let p := if anew then {} else p.getD {}
    let v ← remembered p (evaluate eval items)
    match ← itemsOf items v with
    | [] =>
      into (fun (other, table) flow => .loop span items item index (untouched anew body) (some other)
          (some { p with memo := some v, pointers := flow.tableLeft table }))
        (inView p.pointers (walkAll around anew other))
    | vs =>
      into (fun r _ => .loop span items item index r.body (some (untouched anew other))
          (some { p with memo := some v, pointers := r.table, round := r.round }))
        (roundsFrom p item index vs (untouched anew body) (walkAll around anew body) (walkAll around true body))
  | .element span tag attributes body p => do
    flushPassage options
    let p := if anew then {} else p.getD {}
    let values ← rememberedAttributes eval p attributes
    let p := { p with memo := some (.object values) }
    match tag with
    | .content kind =>
      into (fun body _ => .element span tag attributes body (some p))
        (content options around span kind values (walkAll { around with inContent := true } anew body))
    | .message role =>
      into (fun body _ => .element span tag attributes body (some p))
        (message options around span role values (walkAll { around with inMessage := true } anew body))
    | .scope =>
      let inner ← closedScope p values body
      into (fun (body, scope) flow => .element span tag attributes body (some (closedMarks p flow scope)))
        (inScope inner (walkAll around anew body))
    | .step =>
      into (fun visited _ => .element span tag attributes (visited.getD (untouched anew body)) (some p))
        (step options around span attributes values (walkAll { around with inStep := true } anew body))
    | .reference => fail .unresolvedReference span

/-- Visits nodes in order, and stops where one of them does. -/
def walkAll (around : Surroundings) (anew : Bool) : List Node → Pass σ (List Node × Flow)
  | [] => return ([], .goesOn)
  | n :: r =>
    -- What an earlier pass has done is not visited again.
    if !anew && n.isDone then into (fun r _ => n :: r) (walkAll around anew r)
    else
      goingOn (walk around anew n) (fun n => n :: untouched anew r) fun n =>
        into (fun r _ => n.finished :: r) (walkAll around anew r)

end

end Pass

/-- What a pass over a document gives. -/
structure Outcome where
  messages : List Message
  /-- The pass came to the end of the document. -/
  completed : Bool
  /-- The header, if the pass met it. -/
  globalConfig : Option Config
  /-- The attributes of the step where it stopped. -/
  stepConfig : Option Config
  document : Document
  stash : Stash

namespace Document

variable {σ : Type} (eval : Evaluator σ) (options : Options)

/-- The whole of a pass: the document, then the message of what is left over. -/
def visit (d : Document) : Pass σ (Document × Flow) := do
  let p := d.progress.getD {}
  let ((body, table), flow) ← Pass.inView p.pointers (Pass.walkAll eval options {} false d.body)
  Pass.flushContent options
  let p := match flow with
    | .stops => { p with pointers := some table }
    | .goesOn => { p with pointers := none, done := true }
  return ({ d with body, progress := some p }, flow)

/-- One pass over a document, with the response to the step where the last one stopped. The machine keeps what
calls of the caller's functions have changed, even if the pass ends with a fault. -/
def pass (d : Document) (response : Option (List Content)) (m : Machine σ) :
    Except Fault Outcome × Machine σ :=
  let (result, s) := (visit eval options d).run.run ⟨m, #[], [], [], response, none, none⟩
  (result.map fun (document, flow) =>
    { messages := s.messages.toList, completed := flow = .goesOn, globalConfig := s.globalConfig
      stepConfig := s.stepConfig, document, stash := s.machine.scope.stash }, s.machine)

end Document
end PromptScript
