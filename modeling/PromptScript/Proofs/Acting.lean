import PromptScript.Pass.Walk

/-! # Passes that act otherwise

The walk once more, with what it does with names, with the text that it visits and with the items that it makes given
as `Acts`. With the usual acts it is the walk. With others a pass can be compared with one that does something else at
these places, or that keeps a record of them. -/
namespace PromptScript
namespace Pass

variable {σ : Type} {α : Type}

/-- What a pass does with names, text and content. -/
structure Acts (σ : Type) where
  /-- Evaluates an expression. -/
  find : Expr → Pass σ Value
  /-- Visits a piece of text; the mark tells that it stands in the body of a tool call. -/
  read : Bool → Segment → Pass σ Unit
  /-- Adds an item that is made of text, or of a tag. -/
  make : Content → Span → Pass σ Unit
  /-- Adds an item that is made of an attachment. -/
  attach : Content → Span → Pass σ Unit
  /-- Writes a variable. -/
  write : String → Value → Pass σ Unit
  /-- The scope that a closed part starts with. -/
  scopeOf : Attributes → Except Fault Scope

/-- What a pass usually does. -/
def Acts.usual (eval : Evaluator σ) : Acts σ where
  find := evaluate eval
  read _ := addSegment
  make := addContent
  attach := addContent
  write := Pass.write
  scopeOf attributes := .ok (.ofList attributes)

namespace Acts

variable (acts : Acts σ) (options : Options)

/-! ## Content and messages -/

/-- Turns the passage into content. -/
def flushPassage : Pass σ Unit := do
  match ← takeParagraph with
  | some p => acts.make (textOf options p []) nowhere
  | none => return ()

/-- Takes all content that has no message yet. -/
def takeContent : Pass σ (List (Content × Span)) := do
  acts.flushPassage options
  let s ← get
  set { s with pending := [] }
  return s.pending

/-- Turns all content that has no message yet into one of the default role. -/
def flushContent : Pass σ Unit := do
  match ← acts.takeContent options with
  | [] => return ()
  | content => addMessage (← messageOf options.defaultRole content nowhere)

/-- Puts a value into the text. -/
def putValue (around : Surroundings) (inCall : Bool) (span : Span) (name : Option String) (v : Value) :
    Pass σ Unit := do
  match Attachment.listOf? v with
  | none => acts.read inCall (.value v.toRendered name)
  | some files =>
    if around.inContent then
      match files with
      | [file] => acts.read inCall (.value file.url name)
      | _ => fail .multipleFilesInContentTag span
    else
      acts.flushPassage options
      files.forM fun file => acts.attach file.toContent span

/-- Puts the value of an expression into the text, unless it is an assignment or undefined. -/
def interpolate (around : Surroundings) (inCall : Bool) (span : Span) (e : Expr) : Pass σ Unit := do
  let v ← acts.find e
  if e.isAssignment then return ()
  match v with
  | .undefined => return ()
  | v => acts.putValue options around inCall span e.name? v

/-- The values of the parts of an attribute. -/
def attributeParts : List Node → Pass σ (List Value)
  | [] => return []
  | .text _ data _ :: r => do
    let rest ← attributeParts r
    return if data = "" then rest else .string data :: rest
  | .interpolation _ e _ :: r => do
    match ← acts.find e with
    | .undefined => attributeParts r
    | v => return v :: (← attributeParts r)
  | _ :: r => attributeParts r

/-- The values of attributes. -/
def attributeValues : List Attribute → Attributes → Pass σ Attributes
  | [], acc => return acc
  | .mk _ name .flag :: r, acc => attributeValues r (Fields.set name (.bool true) acc)
  | .mk _ name (.nodes parts) :: r, acc => do
    match ← acts.attributeParts parts with
    | [] => attributeValues r acc
    | [v] => attributeValues r (Fields.set name v acc)
    | vs => attributeValues r (Fields.set name (.string (String.join (vs.map Value.toText))) acc)

/-! ## Tags -/

/-- The start of a message tag. -/
def openMessage (around : Surroundings) (span : Span) (role : Option Role) (attributes : Attributes) :
    Pass σ (Role × Attributes) := do
  if around.inMessage || around.inContent then fail .messageTagInsideMessage span
  acts.flushContent options
  roleOf span role attributes

/-- The end of a message tag. -/
def closeMessage (span : Span) (role : Role) (attributes : Attributes) : Pass σ Unit := do
  let m ← messageOf role (← acts.takeContent options) span
  if role = .tool then addMessage (← toolAnswer span m attributes)
  else addMessage { m with attributes }

/-- A message tag. -/
def message (around : Surroundings) (span : Span) (role : Option Role) (attributes : Attributes)
    (body : Pass σ (α × Flow)) : Pass σ (α × Flow) := do
  let (role, attributes) ← acts.openMessage options around span role attributes
  closing body (acts.closeMessage options span role attributes)

/-- The end of a content tag. -/
def closeContent (span : Span) (kind : ContentKind) (attributes : Attributes) : Pass σ Unit := do
  match ← itemOf options span kind (← takeParagraph) attributes with
  | some item => acts.make item span
  | none => return ()

/-- A content tag; its kind tells how its body is visited. -/
def content (around : Surroundings) (span : Span) (kind : Option ContentKind) (attributes : Attributes)
    (body : ContentKind → Pass σ (α × Flow)) : Pass σ (α × Flow) := do
  let (kind, attributes) ← openContent around span kind attributes
  closing (body kind) (acts.closeContent options span kind attributes)

/-- The end of a step. -/
def closeStep (span : Span) (head : StepHead) (response : List Content) : Pass σ Unit := do
  match head.rawName with
  | some name => acts.write name (Value.ofJson (Message.toJson ⟨.assistant, response, []⟩))
  | none => pure ()
  match head.resultName with
  | some name => acts.write name (← responseValue span (Fields.has "schema" head.config) response)
  | none => pure ()

/-- A step. -/
def step (around : Surroundings) (span : Span) (tags : List Attribute) (attributes : Attributes)
    (body : Pass σ (α × Flow)) : Pass σ (Option α × Flow) := do
  let head ← openStep around span tags attributes
  match ← takeResponse with
  | none =>
    let (a, _) ← body
    leaveSettings head
    return (some a, .stops)
  | some response =>
    acts.closeStep span head response
    acts.flushContent options
    return (none, .goesOn)

/-- The scope that a closed part starts with. -/
def newScope (attributes : Attributes) (body : List Node) : Pass σ Scope :=
  match Node.closureFaults (Fields.names attributes) body with
  | fault :: _ => throw fault
  | [] =>
    match acts.scopeOf attributes with
    | .error fault => throw fault
    | .ok scope => return scope

/-- The scope of a closed part. -/
def closedScope (p : Progress) (attributes : Attributes) (body : List Node) : Pass σ Scope :=
  match p.stash with
  | some stash => return ⟨stash, p.pointers.getD .empty⟩
  | none => acts.newScope attributes body

/-- The attributes of a tag, found once. -/
def rememberedAttributes (p : Progress) (attributes : List Attribute) : Pass σ Attributes :=
  match p.memo with
  | some (.object fields) => return fields
  | _ => acts.attributeValues attributes []

/-! ## The walk -/

mutual

/-- Visits a node. -/
def walk (around : Surroundings) (inCall : Bool) (anew : Bool) : Node → Pass σ (Node × Flow)
  | .text span data p => do
    acts.read inCall (.literal data)
    return (.text span data (if anew then none else p), .goesOn)
  | .comment span data p => return (.comment span data (if anew then none else p), .goesOn)
  | .config span data p => do
    meetHeader span data
    return (.config span data (if anew then none else p), .goesOn)
  | .interpolation span e p => do
    acts.interpolate options around inCall span e
    return (.interpolation span e (if anew then none else p), .goesOn)
  | .group span body p =>
    into (fun body _ => .group span body (if anew then none else p)) (walkAll around inCall anew body)
  | .choice span test body none p => do
    let p := if anew then {} else p.getD {}
    let holds ← remembered p (acts.find test)
    let p := { p with memo := some holds }
    if holds.isTruthy then
      into (fun (body, table) flow => .choice span test body none (some { p with pointers := flow.tableLeft table }))
        (inView p.pointers (walkAll around inCall anew body))
    else return (.choice span test (untouched anew body) none (some { p with pointers := none }), .goesOn)
  | .choice span test body (some other) p => do
    let p := if anew then {} else p.getD {}
    let holds ← remembered p (acts.find test)
    let p := { p with memo := some holds }
    if holds.isTruthy then
      into (fun (body, table) flow => .choice span test body (some (untouched anew other))
          (some { p with pointers := flow.tableLeft table }))
        (inView p.pointers (walkAll around inCall anew body))
    else
      into (fun (other, table) flow => .choice span test (untouched anew body) (some other)
          (some { p with pointers := flow.tableLeft table }))
        (inView p.pointers (walkAll around inCall anew other))
  | .loop span items item index body none p => do
    let p := if anew then {} else p.getD {}
    let v ← remembered p (acts.find items)
    let vs ← itemsOf items v
    into (fun r _ => .loop span items item index r.body none
        (some { p with memo := some v, pointers := r.table, round := r.round }))
      (roundsFrom p item index vs (untouched anew body) (walkAll around inCall anew body)
        (walkAll around inCall true body))
  | .loop span items item index body (some other) p => do
    let p := if anew then {} else p.getD {}
    let v ← remembered p (acts.find items)
    match ← itemsOf items v with
    | [] =>
      into (fun (other, table) flow => .loop span items item index (untouched anew body) (some other)
          (some { p with memo := some v, pointers := flow.tableLeft table }))
        (inView p.pointers (walkAll around inCall anew other))
    | vs =>
      into (fun r _ => .loop span items item index r.body (some (untouched anew other))
          (some { p with memo := some v, pointers := r.table, round := r.round }))
        (roundsFrom p item index vs (untouched anew body) (walkAll around inCall anew body)
        (walkAll around inCall true body))
  | .element span tag attributes body p => do
    acts.flushPassage options
    let p := if anew then {} else p.getD {}
    let values ← acts.rememberedAttributes p attributes
    let p := { p with memo := some (.object values) }
    match tag with
    | .content kind =>
      into (fun body _ => .element span tag attributes body (some p))
        (acts.content options around span kind values fun kind =>
          walkAll { around with inContent := true } (inCall || kind = .toolCall) anew body)
    | .message role =>
      into (fun body _ => .element span tag attributes body (some p))
        (acts.message options around span role values (walkAll { around with inMessage := true } inCall anew body))
    | .scope =>
      let inner ← acts.closedScope p values body
      into (fun (body, scope) flow => .element span tag attributes body (some (closedMarks p flow scope)))
        (inScope inner (walkAll around inCall anew body))
    | .step =>
      into (fun visited _ => .element span tag attributes (visited.getD (untouched anew body)) (some p))
        (acts.step options around span attributes values (walkAll { around with inStep := true } inCall anew body))
    | .reference => fail .unresolvedReference span

/-- Visits nodes in order, and stops where one of them does. -/
def walkAll (around : Surroundings) (inCall : Bool) (anew : Bool) : List Node → Pass σ (List Node × Flow)
  | [] => return ([], .goesOn)
  | n :: r =>
    if !anew && n.isDone then into (fun r _ => n :: r) (walkAll around inCall anew r)
    else
      goingOn (walk around inCall anew n) (fun n => n :: untouched anew r) fun n =>
        into (fun r _ => n.finished :: r) (walkAll around inCall anew r)

end

end Acts
end Pass

/-- The whole of a pass. -/
def Document.visitActing {σ : Type} (acts : Pass.Acts σ) (options : Options) (d : Document) :
    Pass σ (Document × Flow) := do
  let p := d.progress.getD {}
  let ((body, table), flow) ← Pass.inView p.pointers (acts.walkAll options {} false false d.body)
  acts.flushContent options
  let p := match flow with
    | .stops => { p with pointers := some table }
    | .goesOn => { p with pointers := none, done := true }
  return ({ d with body, progress := some p }, flow)

/-! ## The usual acts -/

namespace Pass.Acts

variable {σ : Type} {α : Type} (eval : Evaluator σ) (options : Options)

theorem usual_attributeParts : ∀ parts : List Node,
    (usual eval).attributeParts parts = Pass.attributeParts eval parts
  | [] => rfl
  | .text _ data _ :: r => by rw [attributeParts, Pass.attributeParts, usual_attributeParts r]
  | .interpolation _ e _ :: r => by
    rw [attributeParts, Pass.attributeParts, usual_attributeParts r]
    rfl
  | .comment .. :: r | .config .. :: r | .choice .. :: r | .loop .. :: r | .element .. :: r | .group .. :: r =>
    usual_attributeParts r

theorem usual_attributeValues : ∀ (attributes : List Attribute) (acc : Attributes),
    (usual eval).attributeValues attributes acc = Pass.attributeValues eval attributes acc
  | [], _ => rfl
  | .mk _ _ .flag :: r, _ => usual_attributeValues r _
  | .mk _ name (.nodes parts) :: r, acc => by
    unfold attributeValues Pass.attributeValues
    rw [usual_attributeParts]
    refine congrArg (Pass.attributeParts eval parts >>= ·) (funext fun values => ?_)
    obtain _ | ⟨v, _ | ⟨w, values⟩⟩ := values
    · exact usual_attributeValues r _
    · exact usual_attributeValues r _
    · exact usual_attributeValues r _

theorem usual_rememberedAttributes (p : Progress) (attributes : List Attribute) :
    (usual eval).rememberedAttributes p attributes = Pass.rememberedAttributes eval p attributes :=
  congrArg (fun found : Pass σ Attributes => match p.memo with
    | some (.object fields) => return fields
    | _ => found) (usual_attributeValues eval attributes [])

mutual

/-- **With the usual acts a pass is the walk.** -/
theorem usual_walk (around : Surroundings) (inCall anew : Bool) : ∀ n : Node,
    (usual eval).walk options around inCall anew n = Pass.walk eval options around anew n
  | .text .. | .comment .. | .config .. | .interpolation .. => rfl
  | .group _ body _ => by rw [walk, Pass.walk, usual_walkAll around inCall anew body]
  | .choice _ _ body none _ => by
    rw [walk, Pass.walk, usual_walkAll around inCall anew body]
    rfl
  | .choice _ _ body (some other) _ => by
    rw [walk, Pass.walk, usual_walkAll around inCall anew body, usual_walkAll around inCall anew other]
    rfl
  | .loop _ _ _ _ body none _ => by
    rw [walk, Pass.walk, usual_walkAll around inCall anew body, usual_walkAll around inCall true body]
    rfl
  | .loop _ _ _ _ body (some other) _ => by
    rw [walk, Pass.walk, usual_walkAll around inCall anew body, usual_walkAll around inCall true body,
      usual_walkAll around inCall anew other]
    rfl
  | .element _ _ _ body _ => by
    rw [walk, Pass.walk]
    simp only [usual_walkAll _ _ anew body, usual_rememberedAttributes]
    rfl

theorem usual_walkAll (around : Surroundings) (inCall anew : Bool) : ∀ nodes : List Node,
    (usual eval).walkAll options around inCall anew nodes = Pass.walkAll eval options around anew nodes
  | [] => rfl
  | n :: r => by
    rw [walkAll, Pass.walkAll, usual_walk around inCall anew n, usual_walkAll around inCall anew r]

end

end Pass.Acts

theorem Document.visitActing_usual {σ : Type} (eval : Evaluator σ) (options : Options) (d : Document) :
    d.visitActing (Pass.Acts.usual eval) options = d.visit eval options := by
  unfold visitActing visit
  rw [Pass.Acts.usual_walkAll]
  rfl

end PromptScript
