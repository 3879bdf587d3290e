import PromptScript.Document.Closure
import PromptScript.Json.Reader
import PromptScript.Message.Encoding
import PromptScript.Pass.Basic

/-! # What tags do

Messages, content, and steps, each given the pass over its body as `body`. -/
namespace PromptScript.Pass

variable {σ : Type} {α : Type} (eval : Evaluator σ) (options : Options)

/-! ## Interpolations and attributes -/

/-- Puts a value into the text. Attachments become content; within a content tag a single one is its address. -/
def putValue (around : Surroundings) (span : Span) (name : Option String) (v : Value) : Pass σ Unit := do
  match Attachment.listOf? v with
  | none => addSegment (.value v.toRendered name)
  | some files =>
    if around.inContent then
      match files with
      | [file] => addSegment (.value file.url name)
      | _ => fail .multipleFilesInContentTag span
    else
      flushPassage options
      files.forM fun file => addContent file.toContent span

/-- Puts the value of an expression into the text, unless it is an assignment or undefined. -/
def interpolate (around : Surroundings) (span : Span) (e : Expr) : Pass σ Unit := do
  let v ← evaluate eval e
  if e.isAssignment then return ()
  match v with
  | .undefined => return ()
  | v => putValue options around span e.name? v

/-- The values of the parts of an attribute; undefined ones do not count. -/
def attributeParts : List Node → Pass σ (List Value)
  | [] => return []
  | .text _ data _ :: r => do
    let rest ← attributeParts r
    return if data = "" then rest else .string data :: rest
  | .interpolation _ e _ :: r => do
    match ← evaluate eval e with
    | .undefined => attributeParts r
    | v => return v :: (← attributeParts r)
  | _ :: r => attributeParts r

/-- The values of attributes. A single part keeps its kind, several make a string, and without any the attribute
is left out. -/
def attributeValues : List Attribute → Attributes → Pass σ Attributes
  | [], acc => return acc
  | .mk _ name .flag :: r, acc => attributeValues r (Fields.set name (.bool true) acc)
  | .mk _ name (.nodes parts) :: r, acc => do
    match ← attributeParts eval parts with
    | [] => attributeValues r acc
    | [v] => attributeValues r (Fields.set name v acc)
    | vs => attributeValues r (Fields.set name (.string (String.join (vs.map Value.toText))) acc)

/-- The text of an attribute that has to be written out. -/
def staticAttribute (name : String) (attributes : List Attribute) : Pass σ (Option String) :=
  match Attribute.find? name attributes with
  | none => return none
  | some a => do
    return some (← need a.value.staticText? (.invalidStaticAttribute name) a.span)

/-! ## Messages -/

/-- The role of a message tag, and the attributes that are left. -/
def roleOf (span : Span) (role : Option Role) (attributes : Attributes) : Pass σ (Role × Attributes) := do
  match role with
  | some role => return (role, attributes)
  | none =>
    let name := (← need (Fields.get? "role" attributes) .messageTagWithoutRole span).toText
    let role ← need (Role.ofName? name) (.invalidMessageRole name) span
    return (role, Fields.erase "role" attributes)

/-- A message of a tool carries its content as the answer to a call, which its attributes name. -/
def toolAnswer (span : Span) (m : Message) (attributes : Attributes) : Pass σ Message := do
  let id ← need (Fields.get? "id" attributes) .toolMessageWithoutId span
  let name ← need (Fields.get? "name" attributes) .toolMessageWithoutName span
  let result := Value.ofJson (.arr (m.content.map Content.toJson))
  return ⟨m.role, [.toolResult id.toText name.toText result none []], Fields.erase "name" (Fields.erase "id" attributes)⟩

/-- The start of a message tag: what came before it is a message of its own. Gives the role, and the attributes
that are left. -/
def openMessage (around : Surroundings) (span : Span) (role : Option Role) (attributes : Attributes) :
    Pass σ (Role × Attributes) := do
  if around.inMessage || around.inContent then fail .messageTagInsideMessage span
  flushContent options
  roleOf span role attributes

/-- The end of a message tag: the message of its content. -/
def closeMessage (span : Span) (role : Role) (attributes : Attributes) : Pass σ Unit := do
  let m ← messageOf role (← takeContent options) span
  if role = .tool then addMessage (← toolAnswer span m attributes)
  else addMessage { m with attributes }

/-- A message tag. -/
def message (around : Surroundings) (span : Span) (role : Option Role) (attributes : Attributes)
    (body : Pass σ (α × Flow)) : Pass σ (α × Flow) := do
  let (role, attributes) ← openMessage options around span role attributes
  closing body (closeMessage options span role attributes)

/-! ## Content -/

/-- The kind of a content tag, and the attributes that are left. -/
def kindOf (span : Span) (kind : Option ContentKind) (attributes : Attributes) :
    Pass σ (ContentKind × Attributes) := do
  match kind with
  | some kind => return (kind, attributes)
  | none =>
    let name := (← need (Fields.get? "type" attributes) .contentTagWithoutType span).toText
    let kind ← need (ContentKind.ofName? name) (.invalidContentType name) span
    return (kind, Fields.erase "type" attributes)

/-- An attribute that has to be there and to count as true. -/
def truthy? (name : String) (attributes : Attributes) : Option Value :=
  (Fields.get? name attributes).filter Value.isTruthy

/-- The arguments of a tool call; a string has to be JSON. -/
def argumentsOf (span : Span) (attributes : Attributes) : Pass σ Value :=
  match Fields.get? "arguments" attributes with
  | none => return .object []
  | some (.string s) => do
    return Value.ofJson (← need (Json.parse? s) .invalidToolCallArguments span)
  | some v => return v

/-- The item of a content tag; a text of blanks has none. -/
def itemOf (span : Span) (kind : ContentKind) (text : Option Paragraph) (attributes : Attributes) :
    Pass σ (Option Content) := do
  match kind with
  | .text => return text.map fun p => textOf options p attributes
  | .image => return some (.image (← need text .emptyContentTag span).text attributes)
  | .file =>
    let p ← need text .emptyContentTag span
    let mimeType ← need (truthy? "mime" attributes) .fileTagWithoutMimeType span
    return some (.file p.text mimeType.toText (Fields.erase "mime" attributes))
  | .toolCall =>
    let id ← need (truthy? "id" attributes) .toolCallTagWithoutId span
    let name ← need (truthy? "name" attributes) .toolCallWithoutName span
    let arguments ← argumentsOf span attributes
    return some (.toolCall id.toText name.toText arguments
      (Fields.erase "arguments" (Fields.erase "name" (Fields.erase "id" attributes))))

/-- The start of a content tag. Gives the kind, and the attributes that are left. -/
def openContent (around : Surroundings) (span : Span) (kind : Option ContentKind) (attributes : Attributes) :
    Pass σ (ContentKind × Attributes) := do
  if around.inContent then fail .contentTagInsideContent span
  kindOf span kind attributes

/-- The end of a content tag: the item of its text. -/
def closeContent (span : Span) (kind : ContentKind) (attributes : Attributes) : Pass σ Unit := do
  match ← itemOf options span kind (← takeParagraph) attributes with
  | some item => addContent item span
  | none => return ()

/-- A content tag. -/
def content (around : Surroundings) (span : Span) (kind : Option ContentKind) (attributes : Attributes)
    (body : Pass σ (α × Flow)) : Pass σ (α × Flow) := do
  let (kind, attributes) ← openContent around span kind attributes
  closing body (closeContent options span kind attributes)

/-! ## Steps -/

/-- The value of a response as a step names it: its text, or the JSON that the text is if the step asks for a
schema. -/
def responseValue (span : Span) (hasSchema : Bool) (response : List Content) : Pass σ Value := do
  let text := Content.joinedText response
  if hasSchema then
    return Value.ofJson (← need (Json.parse? (String.ofList (Text.trim text.toList))) .invalidStepResponseFormat span)
  else return .string text

/-- What a step says of itself: the variables that take its response, and its settings. -/
structure StepHead where
  resultName : Option String
  rawName : Option String
  config : Config

/-- The start of a step. -/
def openStep (around : Surroundings) (span : Span) (tags : List Attribute) (attributes : Attributes) :
    Pass σ StepHead := do
  if around.inStep then fail .stepTagInsideStep span
  let resultName ← staticAttribute "as" tags
  let rawName ← staticAttribute "raw" tags
  return ⟨resultName, rawName, Attributes.toJson (Fields.erase "raw" (Fields.erase "as" attributes))⟩

/-- The end of a step: its variables take the response. -/
def closeStep (span : Span) (head : StepHead) (response : List Content) : Pass σ Unit := do
  match head.rawName with
  | some name => write name (Value.ofJson (Message.toJson ⟨.assistant, response, []⟩))
  | none => pure ()
  match head.resultName with
  | some name => write name (← responseValue span (Fields.has "schema" head.config) response)
  | none => pure ()

/-- Leaves the settings of the step where the pass stops. -/
def leaveSettings (head : StepHead) : Pass σ Unit := modify fun s => { s with stepConfig := some head.config }

/-- A step. Without a response the pass stops after its body, which is given back; with one, the step names the
response and the pass goes on. -/
def step (around : Surroundings) (span : Span) (tags : List Attribute) (attributes : Attributes)
    (body : Pass σ (α × Flow)) : Pass σ (Option α × Flow) := do
  let head ← openStep around span tags attributes
  match ← takeResponse with
  | none =>
    let (a, _) ← body
    leaveSettings head
    return (some a, .stops)
  | some response =>
    closeStep span head response
    flushContent options
    return (none, .goesOn)

end PromptScript.Pass
