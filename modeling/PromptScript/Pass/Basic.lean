import PromptScript.Attachment
import PromptScript.Config
import PromptScript.Expr.Evaluation
import PromptScript.Passage

/-! # Passes

A pass goes over a document once, from its start or from where the last pass stopped, and gathers messages. This
module holds what a pass gathers: the passage being read, content that waits for its message, and the messages. -/
namespace PromptScript

/-- What the caller chooses for all passes over a document. -/
structure Options where
  /-- The role of content outside all message tags. -/
  defaultRole : Role := .system
  /-- Whether texts carry the places of the values in them. -/
  sourceMap : Bool := false
  deriving DecidableEq, Repr, Inhabited

/-- Whether a pass goes on after a node, or stops at a step in it. -/
inductive Flow where
  | goesOn | stops
  deriving DecidableEq, Repr, Inhabited

/-- The tags around a node. -/
structure Surroundings where
  inStep : Bool := false
  inMessage : Bool := false
  inContent : Bool := false
  deriving Repr, Inhabited

structure PassState (σ : Type) where
  machine : Machine σ
  messages : Array Message
  /-- The text since the last tag. -/
  passage : Passage
  /-- Content that has no message yet, and the spans of its tags. -/
  pending : List (Content × Span)
  /-- The response to the first step that is not done. -/
  response : Option (List Content)
  /-- The header, once it has been met. -/
  globalConfig : Option Config
  /-- The attributes of the step where the pass stopped. -/
  stepConfig : Option Config

/-- A part of a pass; a fault ends the pass. -/
abbrev Pass (σ : Type) := ExceptT Fault (StateM (PassState σ))

namespace Pass

variable {σ : Type} {α β : Type}

/-- The span of what has no tag of its own. -/
def nowhere : Span := ⟨0, 0⟩

/-- Ends the pass. -/
def fail (defect : Defect) (span : Span) : Pass σ α := throw ⟨defect, span⟩

/-- Ends the pass unless a value is there. -/
def need (v : Option α) (defect : Defect) (span : Span) : Pass σ α :=
  match v with
  | some a => return a
  | none => fail defect span

/-- Runs an evaluation. -/
def evaluate (eval : Evaluator σ) (e : Expr) : Pass σ Value := do
  let s ← get
  let (result, machine) := (eval e).run.run s.machine
  set { s with machine }
  match result with
  | .ok v => return v
  | .error fault => throw fault

/-! ## Variables in view -/

/-- Changes the scope. -/
def modifyScope (f : Scope → Scope) : Pass σ Unit :=
  modify fun s => { s with machine := { s.machine with scope := f s.machine.scope } }

/-- Writes a variable. -/
def write (name : String) (v : Value) : Pass σ Unit := modifyScope fun scope => scope.set name v

/-- Makes a new variable. -/
def declare (name : String) (v : Value) : Pass σ Unit := modifyScope fun scope => scope.declare name v

/-! ## Parts that may stop -/

/-- Makes something else of what a part gives. -/
def into (f : α → Flow → β) (part : Pass σ (α × Flow)) : Pass σ (β × Flow) := do
  let (a, flow) ← part
  return (f a flow, flow)

/-- Goes on with `rest` after a part, or stops with it and gives what is left. -/
def goingOn (part : Pass σ (α × Flow)) (left : α → β) (rest : α → Pass σ (β × Flow)) : Pass σ (β × Flow) := do
  let (a, flow) ← part
  match flow with
  | .stops => return (left a, .stops)
  | .goesOn => rest a

/-- Runs a part that a stop leaves open: only where it goes on, `close` follows. -/
def closing (part : Pass σ (α × Flow)) (close : Pass σ Unit) : Pass σ (α × Flow) :=
  goingOn part id fun a => do
    close
    return (a, .goesOn)

/-- Runs a part with a table of its own over the cells of the pass: the given one, or a copy of the table in
view. Gives the table at the end as well. -/
def inView (table : Option Pointers) (part : Pass σ (α × Flow)) : Pass σ ((α × Pointers) × Flow) := do
  let outer := (← get).machine.scope.pointers
  modifyScope fun scope => { scope with pointers := table.getD outer }
  let (a, flow) ← part
  let inner := (← get).machine.scope.pointers
  modifyScope fun scope => { scope with pointers := outer }
  return ((a, inner), flow)

/-- Runs a part with a scope of its own. Gives the scope at the end as well. -/
def inScope (scope : Scope) (part : Pass σ (α × Flow)) : Pass σ ((α × Scope) × Flow) := do
  let outer := (← get).machine.scope
  modifyScope fun _ => scope
  let (a, flow) ← part
  let inner := (← get).machine.scope
  modifyScope fun _ => outer
  return ((a, inner), flow)

/-! ## Content and messages -/

/-- Adds a piece to the passage. -/
def addSegment (segment : Segment) : Pass σ Unit :=
  modify fun s => { s with passage := s.passage ++ [segment] }

/-- Adds content. -/
def addContent (content : Content) (span : Span) : Pass σ Unit :=
  modify fun s => { s with pending := s.pending ++ [(content, span)] }

/-- Takes the passage. -/
def takeParagraph : Pass σ (Option Paragraph) := do
  let s ← get
  set { s with passage := [] }
  return s.passage.paragraph?

/-- The text item of a paragraph. -/
def textOf (options : Options) (p : Paragraph) (attributes : Attributes) : Content :=
  .text p.text (if options.sourceMap then some p.sources else none) attributes

/-- Turns the passage into content. -/
def flushPassage (options : Options) : Pass σ Unit := do
  match ← takeParagraph with
  | some p => addContent (textOf options p []) nowhere
  | none => return ()

/-- Takes all content that has no message yet. -/
def takeContent (options : Options) : Pass σ (List (Content × Span)) := do
  flushPassage options
  let s ← get
  set { s with pending := [] }
  return s.pending

/-- The message of a role with the given content. Only the assistant asks for tools; a request that has no place
of its own is reported at `span`. -/
def messageOf (role : Role) (content : List (Content × Span)) (span : Span) : Pass σ Message := do
  match content.find? (·.1.isToolCall) with
  | some (_, at_) =>
    if role = .assistant then return ⟨role, content.map Prod.fst, []⟩
    else fail .invalidToolCallPlacement (if at_ = nowhere then span else at_)
  | none => return ⟨role, content.map Prod.fst, []⟩

/-- Adds a message. -/
def addMessage (m : Message) : Pass σ Unit := modify fun s => { s with messages := s.messages.push m }

/-- Turns all content that has no message yet into one of the default role. -/
def flushContent (options : Options) : Pass σ Unit := do
  match ← takeContent options with
  | [] => return ()
  | content => addMessage (← messageOf options.defaultRole content nowhere)

/-- Takes the response that the pass was given. -/
def takeResponse : Pass σ (Option (List Content)) := do
  let s ← get
  set { s with response := none }
  return s.response

end Pass
end PromptScript
